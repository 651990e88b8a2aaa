import LinuxChat.Lib.LinkedList
import LinuxChat.Lib.Trace
import LinuxChat.Model.Logger

/-!
# The thread names

`add_Thread_Name_Mapping`, `remove_Entry`, `f_find_Entry` and the path that
`register_thread_log_under_Name` registers, on the memory they work on:
`firstEntry`, `lastEntry` and the cells with their links. A null or freed
pointer that is followed, a second `free` and a loop that does not end are
faults (`none`).
-/

namespace LinuxChat

open CMem DList Trace

/-- A `ThreadNameMap*`. -/
abbrev EntryPtr := Nat

/-- `struct ThreadNameMap`, its links aside. -/
structure ThreadNameMap where
  threadId : Nat
  name : Buf registeredThreadNameLenMax
  deriving DecidableEq

/-- All zero but for the thread. -/
def ThreadNameMap.fresh (threadId : Nat) : ThreadNameMap := ⟨threadId, Buf.zero _⟩

/-- `strncpy(entry->name, name, MIN(strlen(name), REGISTERED_THREAD_NAME_LEN_MAX))`: no
terminator is written. -/
def ThreadNameMap.setName (e : ThreadNameMap) (name : List UInt8) : ThreadNameMap :=
  { e with
    name := e.name.write 0 (strncpy name (min (cstr name).length registeredThreadNameLenMax)) }

/-- The list: `firstEntry` and `lastEntry` are its ends. -/
abbrev ThreadNames := Links EntryPtr ThreadNameMap

namespace ThreadNames

/-- `f_find_Entry`. -/
def findEntry (s : ThreadNames) (threadID : Nat) : Option (Option EntryPtr) :=
  s.find fun e => e.threadId = threadID

/-- `add_Thread_Name_Mapping`: the list behind the call. `malloc` returns NULL or an address that
is not in use. -/
def addThreadNameMapping (s : ThreadNames) (malloc : Option { p : EntryPtr // p ∉ s.cells.keys })
    (thread : Nat) (name : List UInt8) : Option ThreadNames :=
  match s.findEntry thread with
  | none => none
  | some (some locFound) => s.update locFound fun e => e.setName name
  | some none =>
      match malloc with
      | none => some s
      | some newEntry =>
          s.pushBack newEntry.1 ((ThreadNameMap.fresh thread).setName name) newEntry.2

/-- `remove_Entry`, its lock aside. -/
def removeEntry (s : ThreadNames) (threadID : Nat) : Option ThreadNames :=
  match s.findEntry threadID with
  | none => none
  | some none => some s
  | some (some locPointer) => s.remove locPointer

/-- `newFilename`. -/
def newFilename (name : List UInt8) : List UInt8 :=
  Logger.fileName [lit "./logs/", cstr name, lit ".log"]

/-- What `register_thread_log_under_Name` does to the list. -/
def registerThreadLogUnderName (s : ThreadNames)
    (malloc : Option { p : EntryPtr // p ∉ s.cells.keys }) (threadID : Nat) (name : List UInt8) :
    Option ThreadNames :=
  s.addThreadNameMapping malloc threadID (newFilename name)

/-- What `f_find_Entry` points to. -/
def entryOf (s : ThreadNames) (threadID : Nat) : Option (Option (EntryPtr × ThreadNameMap)) :=
  (s.findEntry threadID).bind fun
    | none => some none
    | some p => (s.cells.get? p).map fun c => some (p, c.data)

/-- `loc_Entry->name` as a string. -/
def pathOf (s : ThreadNames) (threadID : Nat) : Option (List UInt8) :=
  match s.entryOf threadID with
  | some (some (_, e)) => some (cstr e.name.bytes)
  | _ => none

end ThreadNames

inductive ThreadNameAct
  /-- `register_thread_log_under_Name(threadID, name)`, and what `malloc` returns for an entry. -/
  | register (malloc : Option EntryPtr) (threadID : Nat) (name : List UInt8)
  /-- `remove_Entry(threadID)`. -/
  | remove (threadID : Nat)
  deriving DecidableEq

def ThreadNameAct.thread : ThreadNameAct → Nat
  | register _ threadID _ => threadID
  | remove threadID => threadID

inductive ThreadNameOut
  | returned
  | fault
  deriving DecidableEq

/-- The list behind a call: a fault leaves it as it was. -/
def ThreadNames.behind (s : ThreadNames) : Option ThreadNames → ThreadNames × ThreadNameOut
  | some s' => (s', .returned)
  | none => (s, .fault)

/-- One call of the two functions, by whatever thread. -/
def threadNameStep (s : ThreadNames) :
    ThreadNameAct → Option (ThreadNames × ThreadNameOut)
  | .register none threadID name =>
      some (s.behind (s.registerThreadLogUnderName none threadID name))
  | .register (some p) threadID name =>
      if h : p ∈ s.cells.keys then none
      else some (s.behind (s.registerThreadLogUnderName (some ⟨p, h⟩) threadID name))
  | .remove threadID => some (s.behind (s.removeEntry threadID))

/-- The calls, one after the other. -/
def threadNameMachine : Machine ThreadNames ThreadNameAct ThreadNameOut :=
  ⟨Links.empty, threadNameStep⟩

/-- The names registered for a thread since its last removal, oldest first, as strings. -/
def registrations (h : History ThreadNameAct ThreadNameOut) (t : Nat) : List (List UInt8) :=
  h.foldl (fun names e =>
    match e.1 with
    | .register _ threadID name => if threadID = t then names ++ [cstr name] else names
    | .remove threadID => if threadID = t then [] else names) []

end LinuxChat
