import LinuxChat.Model.ClientThread

/-!
# Sending, one `send` at a time

The loops over the users and the replies with every test of `is_User_LoggedIn`
and every `network_Send` a step of its own, so that a peer can reset its
connection between any two of them. A loop holds `userLock` from its first
test to its end; `create_User`, `login_User` and `remove_User` wait for it,
`logout_user` and `close` do not. `self` and `msg` are each thread's own.

A `send` on a connection its peer has reset raises SIGPIPE unless
MSG_NOSIGNAL is passed, and SIGPIPE ends the process unless a disposition of
its own is installed. Any other failing `send` returns -1.
-/

namespace LinuxChat

open CMem Trace

/-! ## The call -/

inductive Signal
  | sigint
  | sigpipe
  deriving DecidableEq, Repr

inductive Disposition
  /-- SIG_DFL: the process ends. -/
  | default
  /-- A handler, or SIG_IGN. -/
  | installed
  deriving DecidableEq, Repr

/-- The dispositions `application_Startup` sets: `signal(SIGINT, sigint_Handler)`. -/
def applicationStartup : Signal → Disposition
  | .sigint => .installed
  | .sigpipe => .default

/-- The connection behind a descriptor number. -/
inductive Connection
  /-- The number is not open. -/
  | closed
  | established
  /-- The peer has reset it. -/
  | reset
  deriving DecidableEq, Repr

/-- `send` of `len` bytes; `none` if it ends the process. `ok` tells whether anything other
than the peer makes it fail. -/
def send (sigpipe : Disposition) (msgNoSignal : Bool) (conn : Connection) (len : Nat)
    (ok : Bool) : Option Int :=
  match conn with
  | .closed => some (-1)
  | .established => some (if ok then len else -1)
  | .reset => if msgNoSignal ∨ sigpipe = .installed then some (-1) else none

/-- `SUCCESS`. -/
def success : Int := 0

/-- `FAILURE`. -/
def failure : Int := -1

/-- `network_Send`, which passes no flags. -/
def networkSend (conn : Connection) (m : CombinedMessage) (ok : Bool) : Option Int :=
  (send (applicationStartup .sigpipe) false conn (headerSize + m.header.length.toNat) ok).map
    fun r => if 0 ≤ r then success else failure

/-- `network_Send` returns, except on a connection that was reset. -/
theorem networkSend_eq_none_iff {conn : Connection} {m : CombinedMessage} {ok : Bool} :
    networkSend conn m ok = none ↔ conn = .reset := by
  cases conn <;> simp [networkSend, send, applicationStartup]

theorem networkSend_eq_some {conn : Connection} {m : CombinedMessage} {ok : Bool} {st : Int}
    (h : networkSend conn m ok = some st) : st = success ∨ st = failure := by
  obtain ⟨r, -, rfl⟩ := Option.map_eq_some_iff.mp h
  split
  · exact .inl rfl
  · exact .inr rfl

/-! ## Loops -/

/-- The threads that call `send`. -/
inductive SendThread
  /-- `broadcast_agent`. -/
  | agent
  /-- The session thread of an entry. -/
  | client (p : UserPtr)
  deriving DecidableEq

/-- The `ITERATE_OVER_USERS` loops that send. -/
inductive SendLoop
  /-- `broadcast_agent` with its buffer. -/
  | broadcast (m : QueueMessage)
  /-- The pause or resume notice of the thread of `p`. -/
  | announce (p : UserPtr) (m : CombinedMessage)
  /-- The `UserRemove` loop of the thread of `p`. -/
  | departure (p : UserPtr) (m : CombinedMessage)
  /-- What the thread of `p` tells its client, on `fd`, about the others. -/
  | snapshot (p : UserPtr) (fd : Nat) (now : UInt64)
  deriving DecidableEq

namespace SendLoop

/-- The thread that runs the loop. -/
def thread : SendLoop → SendThread
  | broadcast _ => .agent
  | announce p _ => .client p
  | departure p _ => .client p
  | snapshot p _ _ => .client p

/-- The users a loop sends to: its own test of each entry. -/
def picks : SendLoop → UserPtr × User → Bool
  | broadcast m => fun e => some e.1 ≠ m.sender && e.2.loggedIn
  | announce _ _ => fun e => e.2.loggedIn
  | departure p _ => fun e => e.2.loggedIn && e.1 ≠ p
  | snapshot p _ _ => fun e => e.1 ≠ p && e.2.loggedIn

/-- The `network_Send` for one target. -/
def call : SendLoop → UserPtr × User → Nat × CombinedMessage
  | broadcast m => fun e => (e.2.sock, m.msg)
  | announce _ m => fun e => (e.2.sock, m)
  | departure _ m => fun e => (e.2.sock, m)
  | snapshot _ fd now => fun e =>
      (fd, (buildUserAdded .zero now e.2.name.bytes e.2.nameLength false).msg)

/-- The calls of a loop nothing comes between. -/
def calls (l : SendLoop) (users : List (UserPtr × User)) : List (Nat × CombinedMessage) :=
  (users.filter l.picks).map l.call

/-- `self->sock` of the thread that sends to its own client. -/
def ownSock (l : SendLoop) (users : UserList) : Prop :=
  match l with
  | snapshot p fd _ => (users.get? p).map (·.sock) = some fd
  | _ => True

instance (l : SendLoop) (users : UserList) : Decidable (l.ownSock users) :=
  match l with
  | snapshot .. => inferInstanceAs (Decidable (_ = _))
  | broadcast .. | announce .. | departure .. => isTrue trivial

end SendLoop

/-! ## Steps -/

/-- Where a thread is in a loop over the users. -/
inductive SendTask
  | idle
  /-- Before the test of the entry at position `i`. -/
  | looping (l : SendLoop) (i : Nat)
  /-- In the `network_Send` for the entry `target` at position `i`. -/
  | sending (l : SendLoop) (i : Nat) (target : UserPtr) (fd : Nat) (m : CombinedMessage)
  /-- In a `network_Send(self->sock, msg)`, with more to come. -/
  | replying (fd : Nat) (m : CombinedMessage) (rest : List CombinedMessage)
  deriving DecidableEq

namespace SendTask

/-- The loop a thread is in, and the position it has come to. -/
def loop? : SendTask → Option (SendLoop × Nat)
  | looping l i => some (l, i)
  | sending l i _ _ _ => some (l, i)
  | idle | replying _ _ _ => none

/-- The descriptor number and the message of the call a thread is in. -/
def call? : SendTask → Option (Nat × CombinedMessage)
  | sending _ _ _ fd m => some (fd, m)
  | replying fd m _ => some (fd, m)
  | idle | looping _ _ => none

/-- The entry a call of a loop is for. -/
def target? : SendTask → Option UserPtr
  | sending _ _ p _ _ => some p
  | idle | looping _ _ | replying _ _ _ => none

/-- Where a thread is behind its call, whatever the result. -/
def next : SendTask → SendTask
  | sending l i _ _ _ => looping l (i + 1)
  | replying fd _ (m :: rest) => replying fd m rest
  | replying _ _ [] => idle
  | t => t

end SendTask

/-- The server and the connections. -/
structure Sending where
  users : UserList
  conns : Nat → Connection
  /-- Who holds `userLock` in a loop. -/
  lock : Option SendThread
  tasks : SendThread → SendTask
  /-- The process has not been ended. -/
  alive : Bool

/-- The server before its first connection. -/
def Sending.init : Sending := ⟨Table.empty, fun _ => .closed, none, fun _ => .idle, true⟩

inductive SendAct
  | accept (fd : Nat)
  /-- The peer resets its connection. -/
  | reset (fd : Nat)
  | close (fd : Nat)
  /-- `malloc` returns `p`. -/
  | createUser (p : UserPtr) (thread fd : Nat)
  | loginUser (p : UserPtr) (name : List UInt8) (size : Nat)
  | logoutUser (p : UserPtr)
  | removeUser (fd : Nat)
  /-- A loop takes `userLock`. -/
  | begin (l : SendLoop)
  /-- The test of the loop a thread is in. -/
  | test (t : SendThread)
  /-- The thread of `p` replies to its client. -/
  | reply (p : UserPtr) (m : CombinedMessage) (rest : List CombinedMessage)
  /-- The `send` a thread is in. -/
  | send (t : SendThread) (ok : Bool)
  deriving DecidableEq

inductive SendOut
  | quiet
  /-- The end of a loop. -/
  | finished (l : SendLoop)
  /-- `network_Send`, and what it returns. -/
  | called (fd : Nat) (m : CombinedMessage) (target : Option UserPtr) (status : Option Int)
  deriving DecidableEq

/-- One step of a live process. -/
def liveStep (s : Sending) : SendAct → Option (Sending × SendOut)
  | .accept fd =>
      if s.conns fd = .closed then
        some ({ s with conns := Function.update s.conns fd .established }, .quiet)
      else none
  | .reset fd =>
      if s.conns fd = .established then
        some ({ s with conns := Function.update s.conns fd .reset }, .quiet)
      else none
  | .close fd => some ({ s with conns := Function.update s.conns fd .closed }, .quiet)
  | .createUser p thread fd =>
      if h : p ∈ s.users.keys then none
      else if s.lock = none then
        some ({ s with users := (s.users.createUser p thread fd h).2 }, .quiet)
      else none
  | .loginUser p name size =>
      if s.lock = none then some ({ s with users := s.users.loginUser p name size }, .quiet)
      else none
  | .logoutUser p => some ({ s with users := s.users.logoutUser p }, .quiet)
  | .removeUser fd =>
      if s.lock = none then some ({ s with users := (s.users.removeUser fd).2 }, .quiet)
      else none
  | .begin l =>
      if s.lock = none ∧ s.tasks l.thread = .idle ∧ l.ownSock s.users then
        some ({ s with
          lock := some l.thread
          tasks := Function.update s.tasks l.thread (.looping l 0) }, .quiet)
      else none
  | .test t =>
      match s.tasks t with
      | .looping l i =>
          match s.users.entries[i]? with
          | some e =>
              if l.picks e then
                let task := .sending l i e.1 (l.call e).1 (l.call e).2
                some ({ s with tasks := Function.update s.tasks t task }, .quiet)
              else
                some ({ s with tasks := Function.update s.tasks t (.looping l (i + 1)) }, .quiet)
          | none =>
              -- `iterate_User` has returned NULL.
              some ({ s with lock := none, tasks := Function.update s.tasks t .idle },
                .finished l)
      | _ => none
  | .reply p m rest =>
      match s.users.get? p, s.tasks (.client p) with
      | some u, .idle =>
          some ({ s with
            tasks := Function.update s.tasks (.client p) (.replying u.sock m rest) }, .quiet)
      | _, _ => none
  | .send t ok =>
      match (s.tasks t).call? with
      | some (fd, m) =>
          let status := networkSend (s.conns fd) m ok
          -- No caller looks at the result.
          some ({ s with
            tasks := Function.update s.tasks t (s.tasks t).next
            alive := status.isSome }, .called fd m (s.tasks t).target? status)
      | none => none

/-- One step; a process that has been ended takes none. -/
def sendStep (s : Sending) (a : SendAct) : Option (Sending × SendOut) :=
  if s.alive then liveStep s a else none

/-- The threads and the peers. -/
def sendMachine : Machine Sending SendAct SendOut := ⟨.init, sendStep⟩

/-! ## The loops in one piece -/

/-- The `network_Send` of an output. -/
def Output.call? : Output → Option (Nat × CombinedMessage)
  | .reply fd o => some (fd, o.msg)
  | .notify fd o => some (fd, o.msg)
  | _ => none

theorem calls_announce (users : UserList) (p : UserPtr) (o : Outgoing) :
    (notifyAll users o).filterMap Output.call? =
      (SendLoop.announce p o.msg).calls users.entries := by
  simp [notifyAll, List.filterMap_map, SendLoop.calls, UserList.loggedInUsers, SendLoop.call,
    SendLoop.picks, Function.comp_def, Output.call?]

theorem calls_snapshot (users : UserList) (p : UserPtr) (fd : Nat) (now : UInt64) :
    ((snapshot now users p).map (Output.reply fd)).filterMap Output.call? =
      (SendLoop.snapshot p fd now).calls users.entries := by
  simp [snapshot, List.filterMap_map, SendLoop.calls, UserList.loggedInUsers, SendLoop.call,
    SendLoop.picks, Function.comp_def, Output.call?]

theorem calls_departure (env : Env) (p : UserPtr) (u : User) (sv : Server) (status : Int)
    (reason : ClientDisconnectCode) (m : CombinedMessage) (hname : u.nameLength ≠ 0) :
    (clientTeardown env p u sv status reason m).out.filterMap Output.call? =
      (SendLoop.departure p (clientTeardown env p u sv status reason m).msg).calls
        (sv.users.logoutUser p).entries := by
  simp [clientTeardown, hname, List.filterMap_map, SendLoop.calls, UserList.loggedInUsers,
    SendLoop.call, SendLoop.picks, Function.comp_def, Output.call?, List.filterMap_append,
    Bool.and_comm]

end LinuxChat
