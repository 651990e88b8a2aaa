import LinuxChat.Model.Frames

/-!
# Descriptor numbers

The kernel gives an accepted connection a number that is not open, and takes
it back when it is closed. The server keeps numbers in its user entries, and
its threads read from, send to and close whatever is behind them by then. An
entry has room for a `u16`, which is what `client_Thread` makes of its number.

Every access to a number is a step of its own, and so are the two halves of a
session's end, `close` and `remove_User`. What a thread does about a frame is
cut into pieces, which it may take in any order and number; the passes of
`client_Thread` are among these. A thread's steps name the entry it finds in
`self` (`q`), which is one variable for all threads. `logout_user` and `close`
do not wait for `userLock`.
-/

namespace LinuxChat

open CMem Trace

/-- The calls that take a descriptor number. -/
inductive FdCall
  | recv
  | read
  | send
  | close
  deriving DecidableEq, Repr

/-- Where the session of a connection is. -/
inductive FdPhase
  /-- `create_User` has not been called yet. -/
  | unborn
  /-- `client_Thread(fd)` has been started. -/
  | accepted (fd : Nat)
  /-- In the loop, `create_User` having returned `p`. -/
  | running (p : UserPtr)
  /-- In the loop, `create_User` having returned NULL. -/
  | unseated
  /-- Behind `logout_user`. -/
  | loggedOut (p : UserPtr)
  /-- Behind the `UserRemove` loop. -/
  | notified (p : UserPtr)
  /-- Between `close` and `remove_User`. -/
  | closed (p : UserPtr)
  | gone
  deriving DecidableEq, Repr

/-- The entry `create_User` made for the session, until `remove_User`. -/
def FdPhase.user? : FdPhase → Option UserPtr
  | running p | loggedOut p | notified p | closed p => some p
  | unborn | accepted _ | unseated | gone => none

inductive FdThread
  /-- `broadcast_agent`. -/
  | agent
  /-- The session thread of a connection. -/
  | session (c : Nat)
  deriving DecidableEq, Repr

/-- The loops over the users that send. -/
inductive FdLoop
  /-- To every logged-in user but one: `broadcast_agent` leaves out the sender, the `UserRemove`
  loop `self`, the pause and resume notices nobody. -/
  | toTargets (skip : Option UserPtr)
  /-- To `self`, about every other logged-in user. -/
  | aboutTargets (self : UserPtr)
  deriving DecidableEq, Repr

/-- The users a loop acts for: its own test of each entry. -/
def FdLoop.picks : FdLoop → UserPtr × User → Bool
  | toTargets skip, e => some e.1 ≠ skip && e.2.loggedIn
  | aboutTargets self, e => e.1 ≠ self && e.2.loggedIn

/-- The entry whose number a loop sends to. -/
def FdLoop.addressee : FdLoop → UserPtr → UserPtr
  | toTargets _, target => target
  | aboutTargets self, _ => self

/-- Where a thread is in a loop. -/
inductive FdTask
  | idle
  /-- Before the test of the entry at position `i`. -/
  | looping (l : FdLoop) (i : Nat)
  /-- Before the `network_Send(p->sock, msg)` for it. -/
  | sending (l : FdLoop) (i : Nat) (p : UserPtr)
  deriving DecidableEq, Repr

/-- The server, its threads and the kernel's numbers. -/
structure Descriptors where
  users : UserList
  /-- The connection behind an open number. -/
  owner : Nat → Option Nat
  /-- The connection for which `create_User` made the entry at an address. -/
  conn : UserPtr → Nat
  phase : Nat → FdPhase
  /-- Who holds `userLock` in a loop. -/
  lock : Option FdThread
  tasks : FdThread → FdTask

namespace Descriptors

/-- The server before its first connection. -/
def init : Descriptors where
  users := Table.empty
  owner := fun _ => none
  conn := fun _ => 0
  phase := fun _ => .unborn
  lock := none
  tasks := fun _ => .idle

/-- A thread in `phase` may enter the loop. -/
def mayBegin (s : Descriptors) : FdThread → FdLoop → Bool
  | .agent, .toTargets _ => true
  | .agent, .aboutTargets _ => false
  | .session c, l =>
      match s.phase c, l with
      | .running _, .toTargets none => true
      | .running _, .aboutTargets q => (s.users.get? q).isSome
      -- `get_User_name_length(self) != 0`.
      | .loggedOut _, .toTargets (some q) => (s.users.get? q).any (·.nameLength ≠ 0)
      | _, _ => false

/-- What the end of a loop means for the session whose thread was in it. -/
def afterLoop (s : Descriptors) : FdThread → Nat → FdPhase
  | .agent => s.phase
  | .session c =>
      match s.phase c with
      | .loggedOut p => Function.update s.phase c (.notified p)
      | _ => s.phase

end Descriptors

inductive FdAct
  /-- The kernel gives connection `c` the number `fd`. -/
  | accept (c fd : Nat)
  /-- `create_User(pthread_self(), (u16)fd)`; `malloc` returns `p`. -/
  | start (c : Nat) (p : UserPtr) (thread : Nat)
  /-- `self->sock` with `self` NULL. -/
  | startNull (c : Nat)
  /-- `Check_for_Message`, `network_Receive` or a reply on `self->sock`. -/
  | call (c : Nat) (q : UserPtr) (k : FdCall)
  /-- `login_User(self, login_name, *msg_length - 5)` for the login request `f`. -/
  | login (c : Nat) (q : UserPtr) (f : Frame) (env : Env)
  /-- The loop of `/kick`. -/
  | kick (c : Nat) (name : List UInt8)
  /-- The loop has ended: `logout_user(self)`. -/
  | logout (c : Nat) (q : UserPtr)
  /-- `get_User_name_length(self)` is 0, no `UserRemove`. -/
  | skipNotice (c : Nat) (q : UserPtr)
  /-- `close(self->sock)`. -/
  | close (c : Nat) (q : UserPtr)
  /-- `remove_User(self->sock)`. -/
  | remove (c : Nat) (q : UserPtr)
  /-- A loop takes `userLock`. -/
  | begin (t : FdThread) (l : FdLoop)
  /-- The test of the loop a thread is in. -/
  | test (t : FdThread)
  /-- The `network_Send` of the loop a thread is in. -/
  | send (t : FdThread)
  deriving DecidableEq

/-- The session that takes a step, and what it finds in `self`. -/
def FdAct.self? : FdAct → Option (Nat × UserPtr)
  | call c q _ | login c q _ _ | logout c q | skipNotice c q | close c q | remove c q => some (c, q)
  | begin (.session c) (.aboutTargets q) | begin (.session c) (.toTargets (some q)) => some (c, q)
  | _ => none

inductive FdOut
  | quiet
  /-- `create_User` returns. -/
  | started (r : Option UserPtr)
  /-- A call with the number in the entry `p`, which was created for connection `c`, while the
  number belongs to `owner`. -/
  | used (k : FdCall) (p : UserPtr) (c fd : Nat) (owner : Option Nat)
  /-- A null pointer is followed. -/
  | fault
  deriving DecidableEq, Repr

namespace Descriptors

/-- A call with the number in the entry at `p`. -/
def use (s : Descriptors) (k : FdCall) (p : UserPtr) (u : User) : FdOut :=
  .used k p (s.conn p) u.sock (s.owner u.sock)

/-- The thread of a session is in no loop. -/
def free (s : Descriptors) (c : Nat) : Prop := s.tasks (.session c) = .idle

instance (s : Descriptors) (c : Nat) : Decidable (s.free c) :=
  inferInstanceAs (Decidable (_ = _))

end Descriptors

/-- One step of the kernel, of a session, or of a loop over the users. -/
def fdStep (s : Descriptors) : FdAct → Option (Descriptors × FdOut)
  | .accept c fd =>
      if s.phase c = .unborn ∧ s.owner fd = none then
        some ({ s with
          owner := Function.update s.owner fd (some c)
          phase := Function.update s.phase c (.accepted fd) }, .quiet)
      else none
  | .start c p thread =>
      match s.phase c with
      | .accepted fd =>
          if h : p ∈ s.users.keys then none
          else if s.lock = none then
            match s.users.createUser p thread (toU16 fd) h with
            | (some _, users) =>
                some ({ s with
                  users
                  conn := Function.update s.conn p c
                  phase := Function.update s.phase c (.running p) }, .started (some p))
            | (none, _) =>
                some ({ s with phase := Function.update s.phase c .unseated }, .started none)
          else none
      | _ => none
  | .startNull c => if s.phase c = .unseated then some (s, .fault) else none
  | .call c q k =>
      match s.phase c, s.users.get? q with
      | .running _, some u => if s.free c ∧ k ≠ .close then some (s, s.use k q u) else none
      | _, _ => none
  | .login c q f env =>
      match s.phase c, f.received with
      | .running _, .frame _ .receivedLogin m _ =>
          if s.free c ∧ s.lock = none ∧ q ∈ s.users.keys then
            let msgLength := m.header.length.toNat
            some ({ s with
              users := s.users.loginUser q (loginMem env m msgLength) (loginSize msgLength) },
              .quiet)
          else none
      | _, _ => none
  | .kick c name =>
      match s.phase c with
      | .running _ =>
          if s.free c ∧ s.lock = none then
            match kickTarget s.users name with
            | none => some (s, .quiet)
            | some (target, v) =>
                -- The entry keeps the number, and stays logged in.
                some ({ s with
                  users := s.users.userShouldShutdown target
                  owner := Function.update s.owner v.sock none }, s.use .close target v)
          else none
      | _ => none
  | .logout c q =>
      match s.phase c with
      | .running p =>
          if s.free c ∧ q ∈ s.users.keys then
            some ({ s with
              users := s.users.logoutUser q
              phase := Function.update s.phase c (.loggedOut p) }, .quiet)
          else none
      | _ => none
  | .skipNotice c q =>
      match s.phase c, s.users.get? q with
      | .loggedOut p, some u =>
          if s.free c ∧ u.nameLength = 0 then
            some ({ s with phase := Function.update s.phase c (.notified p) }, .quiet)
          else none
      | _, _ => none
  | .close c q =>
      match s.phase c, s.users.get? q with
      | .notified p, some u =>
          if s.free c then
            some ({ s with
              owner := Function.update s.owner u.sock none
              phase := Function.update s.phase c (.closed p) }, s.use .close q u)
          else none
      | _, _ => none
  | .remove c q =>
      match s.phase c, s.users.get? q with
      | .closed _, some u =>
          if s.free c ∧ s.lock = none then
            some ({ s with
              users := (s.users.removeUser u.sock).2
              phase := Function.update s.phase c .gone }, .quiet)
          else none
      | _, _ => none
  | .begin t l =>
      if s.lock = none ∧ s.tasks t = .idle ∧ s.mayBegin t l then
        some ({ s with lock := some t, tasks := Function.update s.tasks t (.looping l 0) }, .quiet)
      else none
  | .test t =>
      match s.tasks t with
      | .looping l i =>
          match s.users.entries[i]? with
          | some e =>
              let task := if l.picks e then .sending l i (l.addressee e.1) else .looping l (i + 1)
              some ({ s with tasks := Function.update s.tasks t task }, .quiet)
          | none =>
              some ({ s with
                lock := none
                tasks := Function.update s.tasks t .idle
                phase := s.afterLoop t }, .quiet)
      | _ => none
  | .send t =>
      match s.tasks t with
      | .sending l i p =>
          match s.users.get? p with
          | some u =>
              some ({ s with tasks := Function.update s.tasks t (.looping l (i + 1)) },
                s.use .send p u)
          | none => none
      | _ => none

/-- The kernel, the sessions and the agent. -/
def fdMachine : Machine Descriptors FdAct FdOut := ⟨.init, fdStep⟩

end LinuxChat
