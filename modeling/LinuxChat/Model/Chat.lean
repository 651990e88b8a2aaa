import LinuxChat.Lib.Roster
import LinuxChat.Model.Frames

/-!
# Logins and departures, step by step

The session threads and the broadcast agent at the grain of their critical
sections. A login is four steps: the checks (`is_name_free` takes `userLock`
once), `login_User` (which takes it again), `broadcast_message`, and the loop
that tells the newcomer about the others. A departure is three: `logout_user`,
the loop that sends `UserRemove`, and `remove_User`. Steps of different
threads and of the agent come in any order. `self` is each thread's own entry.

`inbox` collects, for each client, what it is sent by the agent and by the two
loops, in order: the messages a client keeps its list of users by.
-/

namespace LinuxChat

open CMem ByteStream Trace

/-- Where a session thread is. -/
inductive LoginPhase
  /-- Between two frames. -/
  | idle
  /-- The login is answered with `LR_success`; before `login_User(self, name, size)`. -/
  | checked (name : List UInt8) (size : Nat)
  /-- Before `broadcast_message`. -/
  | written
  /-- In `broadcast_message`, or before the loop that follows. -/
  | announcing
  /-- Behind `logout_user`. -/
  | loggedOut
  /-- Behind the `UserRemove` loop. -/
  | notified
  deriving DecidableEq

/-- The name a thread is about to store. -/
def LoginPhase.pending : LoginPhase → Option (List UInt8)
  | .checked name size => some (cstr (name.take size))
  | _ => none

/-- The shared state, each thread's position, and what each client was sent. -/
structure Chat where
  users : UserList
  phase : UserPtr → LoginPhase
  bus : Broadcast UserPtr QueueMessage
  inbox : UserPtr → List CombinedMessage

namespace Chat

/-- The server before the first connection. -/
def init : Chat := ⟨Table.empty, fun _ => .idle, .init, fun _ => []⟩

/-- Send a message to every entry a loop over the users picks. -/
def sendAll (inbox : UserPtr → List CombinedMessage) (l : UserList)
    (pick : UserPtr → User → Bool) (m : CombinedMessage) : UserPtr → List CombinedMessage :=
  fun p =>
    match l.get? p with
    | some u => if pick p u then inbox p ++ [m] else inbox p
    | none => inbox p

/-- The thread of `p` is between two frames. -/
def Idle (s : Chat) (p : UserPtr) : Prop := s.phase p = .idle ∧ s.bus.callers p = none

instance (s : Chat) (p : UserPtr) : Decidable (s.Idle p) :=
  decidable_of_iff (s.phase p = .idle ∧ (s.bus.callers p).isNone = true)
    (and_congr_right fun _ => Option.isNone_iff_eq_none)

end Chat

inductive ChatAct
  /-- A connection on `sock`, served by `thread`; `malloc` returns `p` for its entry. -/
  | connect (p : UserPtr) (thread sock : Nat)
  /-- `p` sends the login request `f`: the copy, the two checks and the response. -/
  | scan (p : UserPtr) (f : Frame) (env : Env)
  /-- `login_User`. -/
  | write (p : UserPtr)
  /-- `build_User_Added` and the `mq_getattr` of `broadcast_message`. -/
  | announce (p : UserPtr) (now : UInt64)
  /-- The loop that tells `p` about the others. -/
  | snapshot (p : UserPtr) (now : UInt64)
  /-- `p` sends the text `f`: `build_Server_to_client` and `mq_getattr`. -/
  | say (p : UserPtr) (f : Frame) (now : UInt64)
  /-- Any other step of `broadcastagent.c`. -/
  | bus (a : BroadcastAct UserPtr QueueMessage)
  /-- `logout_user(self)`. -/
  | logout (p : UserPtr)
  /-- The loop that sends `UserRemove`. -/
  | notify (p : UserPtr) (reason : ClientDisconnectCode) (now : UInt64)
  /-- `close` and `remove_User`. -/
  | remove (p : UserPtr)

/-- The agent sends what it has delivered to every logged-in user but the sender. -/
def deliverTo (s : Chat) : BroadcastOut QueueMessage → UserPtr → List CombinedMessage
  | .delivered (some m) =>
      Chat.sendAll s.inbox s.users (fun p u => some p ≠ m.sender && u.loggedIn) m.msg
  | _ => s.inbox

/-- One step of a thread or of the agent. -/
def chatStep (s : Chat) : ChatAct → Option (Chat × Unit)
  | .connect p thread sock =>
      if h : p ∈ s.users.keys then none
      else if (s.users.findUser sock).isSome then none
      else
        some ({ s with
          users := (s.users.createUser p thread sock h).2
          inbox := Function.update s.inbox p [] }, ())
  | .scan p f env =>
      if s.Idle p ∧ p ∈ s.users.keys then
        match f.received with
        | .frame _ .receivedLogin m _ =>
            -- `is_name_free` takes `userLock` here, `login_User` takes it again in the next step.
            let name := loginMem env m m.header.length.toNat
            if loginResponse s.users name = .success then
              some ({ s with
                phase := Function.update s.phase p
                  (.checked name (loginSize m.header.length.toNat)) }, ())
            else some (s, ())
        | _ => none
      else none
  | .write p =>
      match s.phase p with
      | .checked name size =>
          some ({ s with
            users := s.users.loginUser p name size
            phase := Function.update s.phase p .written }, ())
      | _ => none
  | .announce p now =>
      match s.users.get? p, s.phase p with
      | some u, .written =>
          (broadcastStep s.bus (.getattr p ⟨none, (loginNotice now u).msg⟩)).map fun r =>
            ({ s with bus := r.1, phase := Function.update s.phase p .announcing }, ())
      | _, _ => none
  | .snapshot p now =>
      match s.phase p, s.bus.callers p with
      | .announcing, none =>
          some ({ s with
            phase := Function.update s.phase p .idle
            inbox := Function.update s.inbox p
              (s.inbox p ++ (snapshot now s.users p).map (·.msg)) }, ())
      | _, _ => none
  | .say p f now =>
      match s.users.get? p, f.received with
      | some u, .frame _ .receivedMessage m _ =>
          if s.Idle p then
            let o := buildServerToClient m now m.header.length.toNat u.name.bytes u.nameLength
            (broadcastStep s.bus (.getattr p ⟨none, o.msg⟩)).map fun r =>
              ({ s with bus := r.1 }, ())
          else none
      | _, _ => none
  | .bus (.getattr _ _) => none
  | .bus a =>
      (broadcastStep s.bus a).map fun r => ({ s with bus := r.1, inbox := deliverTo s r.2 }, ())
  | .logout p =>
      if s.Idle p ∧ p ∈ s.users.keys then
        some ({ s with
          users := s.users.logoutUser p
          phase := Function.update s.phase p .loggedOut }, ())
      else none
  | .notify p reason now =>
      match s.users.get? p, s.phase p with
      | some u, .loggedOut =>
          some ({ s with
            phase := Function.update s.phase p .notified
            inbox :=
              -- `name_length` outlives `logout_user`.
              if u.nameLength ≠ 0 then
                Chat.sendAll s.inbox s.users (fun q v => v.loggedIn && q ≠ p)
                  (teardownNotice now .zero reason u).msg
              else s.inbox }, ())
      | _, _ => none
  | .remove p =>
      match s.users.get? p, s.phase p with
      | some u, .notified =>
          some ({ s with
            users := (s.users.removeUser u.sock).2
            phase := Function.update s.phase p .idle }, ())
      | _, _ => none

/-- The session threads, the agent and the clients' inboxes. -/
def chatMachine : Machine Chat ChatAct Unit := ⟨.init, chatStep⟩

/-! ## What a client makes of its messages -/

/-- What a `UserAdd` or `UserRemove` says: its name field up to the announced length. -/
def noticeOf (m : CombinedMessage) : Option (Notice (List UInt8)) :=
  let body := m.body.bytes.take m.header.length.toNat
  if m.header.type = MessageType.userAdd.code then some (.added (cstr (body.drop 8)))
  else if m.header.type = MessageType.userRemove.code then some (.removed (cstr (body.drop 9)))
  else none

/-- The names a client lists after the messages it was sent. -/
def rosterOf (inbox : List CombinedMessage) : Finset (List UInt8) :=
  Notice.roster (inbox.filterMap noticeOf)

end LinuxChat
