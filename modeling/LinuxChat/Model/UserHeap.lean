import LinuxChat.Lib.DList
import LinuxChat.Lib.Trace
import LinuxChat.Model.User

/-!
# The user list as pointers

`create_User`, `remove_User` and `f_find_User` on the memory they work on:
`userFront`, `userBack` and the cells with their links. A call is two critical
sections, the lookup and the update, with the calls of other threads in
between. A null or freed pointer that is followed, a second `free` and a loop
that does not end are faults (`none`).
-/

namespace LinuxChat

open Trace

/-- The list in memory. -/
structure UserHeap where
  cells : Cells UserPtr User
  userFront : Option UserPtr
  userBack : Option UserPtr
  deriving DecidableEq

namespace UserHeap

/-- Before the first `create_User`. -/
def init : UserHeap := ⟨Table.empty, none, none⟩

/-- The loop of `f_find_User`; the count bounds its passes. -/
def findLoop (cells : Cells UserPtr User) (sock : Nat) :
    Nat → Option UserPtr → Option (Option UserPtr)
  | 0, _ => none
  | _ + 1, none => some none
  | n + 1, some locPointer =>
      match cells.get? locPointer with
      | none => none
      | some user =>
          if user.data.sock = sock then some (some locPointer)
          else findLoop cells sock n user.next

/-- `f_find_User`. A walk longer than the number of cells is not going to end. -/
def findUser (s : UserHeap) (sock : Nat) : Option (Option UserPtr) :=
  findLoop s.cells sock (s.cells.keys.length + 1) s.userFront

/-- The locked part of `create_User`, where `malloc` returns `newUser`. -/
def createUser (s : UserHeap) (newUser : UserPtr) (thread sock : Nat)
    (h : newUser ∉ s.cells.keys) : Option UserHeap :=
  let cells : Cells UserPtr User := s.cells.append newUser ⟨none, none, User.fresh thread sock⟩ h
  if s.userFront = none then some ⟨cells, some newUser, some newUser⟩
  else do
    let cells ← cells.setNext s.userBack (some newUser)
    let cells ← cells.setPrev (some newUser) s.userBack
    some ⟨cells, s.userFront, some newUser⟩

/-- The four cases of `remove_User`. -/
def unlink (s : UserHeap) (locPointer : UserPtr) : Option UserHeap :=
  if s.userFront = s.userBack then some ⟨s.cells, none, none⟩
  else if some locPointer = s.userFront then do
    let front ← s.cells.next s.userFront
    let cells ← s.cells.setPrev front none
    some ⟨cells, front, s.userBack⟩
  else if some locPointer = s.userBack then do
    let back ← s.cells.prev s.userBack
    let cells ← s.cells.setNext back none
    some ⟨cells, s.userFront, back⟩
  else do
    let cells ← s.cells.setNext (← s.cells.prev locPointer) (← s.cells.next locPointer)
    -- Both links are read again.
    let cells ← cells.setPrev (← cells.next locPointer) (← cells.prev locPointer)
    some ⟨cells, s.userFront, s.userBack⟩

/-- The locked part of `remove_User`. -/
def removeUser (s : UserHeap) (locPointer : UserPtr) : Option UserHeap := do
  let s ← s.unlink locPointer
  let cells ← s.cells.free locPointer
  some { s with cells }

end UserHeap

/-! ## Calls -/

/-- Where a call is that has come back from its lookup. -/
inductive UserCall
  /-- `create_User`: the socket is unique. -/
  | creating (thread sock : Nat)
  /-- `remove_User`: the entry found. -/
  | removing (sock : Nat) (locPointer : UserPtr)
  deriving DecidableEq

def UserCall.sock : UserCall → Nat
  | creating _ sock => sock
  | removing sock _ => sock

/-- The list and the calls that are between their two parts, by thread. -/
structure UserCalls where
  heap : UserHeap
  calls : Table Nat UserCall
  deriving DecidableEq

inductive UserAct
  /-- Thread `t` calls `create_User(thread, sock)`: the lookup. -/
  | createLookup (t thread sock : Nat)
  /-- The locked part, with what `malloc` returns. -/
  | createUpdate (t : Nat) (newUser : UserPtr)
  /-- Thread `t` calls `remove_User(sock)`: the lookup. -/
  | removeLookup (t sock : Nat)
  /-- The locked part. -/
  | removeUpdate (t : Nat)
  deriving DecidableEq

inductive UserOut
  | quiet
  /-- `create_User` returns. -/
  | created (thread sock : Nat) (r : Option UserPtr)
  /-- `remove_User` returns. -/
  | removed (sock : Nat) (r : Bool)
  | fault
  deriving DecidableEq

/-- One critical section of one call. -/
def userStep (s : UserCalls) : UserAct → Option (UserCalls × UserOut)
  | .createLookup t thread sock =>
      if h : t ∈ s.calls.keys then none
      else
        match s.heap.findUser sock with
        | none => some (s, .fault)
        | some (some _) => some (s, .created thread sock none)
        | some none =>
            some ({ s with calls := s.calls.append t (.creating thread sock) h }, .quiet)
  | .createUpdate t newUser =>
      match s.calls.get? t with
      | some (.creating thread sock) =>
          if h : newUser ∈ s.heap.cells.keys then none
          else
            match s.heap.createUser newUser thread sock h with
            | none => some (s, .fault)
            | some heap => some (⟨heap, s.calls.erase t⟩, .created thread sock (some newUser))
      | _ => none
  | .removeLookup t sock =>
      if h : t ∈ s.calls.keys then none
      else
        match s.heap.findUser sock with
        | none => some (s, .fault)
        | some none => some (s, .removed sock false)
        | some (some locPointer) =>
            some ({ s with calls := s.calls.append t (.removing sock locPointer) h }, .quiet)
  | .removeUpdate t =>
      match s.calls.get? t with
      | some (.removing sock locPointer) =>
          match s.heap.removeUser locPointer with
          | none => some (s, .fault)
          | some heap => some (⟨heap, s.calls.erase t⟩, .removed sock true)
      | _ => none

/-- The threads, from the empty list. -/
def userMachine : Machine UserCalls UserAct UserOut := ⟨⟨.init, Table.empty⟩, userStep⟩

end LinuxChat
