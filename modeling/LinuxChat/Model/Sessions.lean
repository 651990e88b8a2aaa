import LinuxChat.Model.Frames

/-!
# The session threads and their one `self`

`self`, `msg`, `msg_length`, `connection_status` and `disconnect_reason` are
file-level variables of clientthread.c, and every session thread reads and
writes them. The steps of a thread are its session start, one iteration of its
loop, and its teardown; the steps of any number of threads interleave.

A step that finds `self` null or freed is a `fault`: C gives it no meaning.
-/

namespace LinuxChat

open CMem Trace

/-- Where a session thread is. -/
inductive SessionPhase
  /-- In the receive loop. -/
  | running
  /-- Behind it. -/
  | ended
  deriving DecidableEq, Repr

/-- The shared state, the file-level variables, and for each thread the descriptor it was
started for. -/
structure World where
  server : Server
  self : Option UserPtr
  msg : CombinedMessage
  msgLength : Nat
  connectionStatus : Int
  disconnectReason : ClientDisconnectCode
  threads : Nat → Option (Nat × SessionPhase)

namespace World

/-- The program before the first connection. -/
def init : World where
  server := .init
  self := none
  msg := .zero
  msgLength := 0
  connectionStatus := 0
  disconnectReason := .communicationError
  threads := fun _ => none

/-- The entry `self` points to, if it points to one. -/
def current (w : World) : Option (UserPtr × User) :=
  w.self.bind fun p => (w.server.users.get? p).map (p, ·)

end World

inductive SessionAct
  /-- Thread `t` starts for the descriptor `fd`; `malloc` returns `p` in `create_User`. -/
  | start (t fd : Nat) (p : UserPtr)
  /-- An iteration of `t` that receives `f`. -/
  | iterate (t : Nat) (f : Frame) (env : Env)
  /-- An iteration of `t` in which `recv` returns `status`, 0 or -1. -/
  | hangUp (t : Nat) (status : Int)
  /-- The teardown of `t`. -/
  | finish (t : Nat) (env : Env)
  deriving DecidableEq

/-- The thread that takes a step. -/
def SessionAct.thread : SessionAct → Nat
  | .start t _ _ | .iterate t _ _ | .hangUp t _ | .finish t _ => t

/-- What a step does to the outside. -/
structure SessionOut where
  out : List Output
  fault : Bool
  deriving DecidableEq

/-- One step of a session thread. -/
def sessionStep (cfg : Config) (w : World) : SessionAct → Option (World × SessionOut)
  | .start t fd p =>
      if h : p ∈ w.server.users.keys then none
      else
        match w.threads t with
        | some _ => none
        | none =>
            -- The file-level `self` of all threads; NULL if the socket is in use.
            let (self, users) := w.server.users.createUser p t (toU16 fd) h
            some ({ w with
              server := { w.server with users }
              self
              msg := .zero
              msgLength := 0
              disconnectReason := .communicationError
              threads := Function.update w.threads t (some (fd, .running)) }, ⟨[], false⟩)
  | .iterate t f env =>
      match w.threads t with
      | some (_, .running) =>
          match w.current with
          | none => some (w, ⟨[], true⟩)
          | some (p, u) =>
              -- `p` and `u` are what `self` points to, whoever stored it there.
              let r := clientPass cfg { env with thread := t } p u w.server f.received
              some ({ w with
                server := r.server
                msg := r.msg
                msgLength := f.header.length.toNat
                connectionStatus := headerSize }, ⟨r.out, false⟩)
      | _ => none
  | .hangUp t status =>
      match w.threads t with
      | some (fd, .running) =>
          if 0 < status then none
          else
            match w.current with
            | none => some (w, ⟨[], true⟩)
            | some (_, u) =>
                some ({ w with
                  msg := .zero
                  connectionStatus := status
                  threads := Function.update w.threads t (some (fd, .ended)) },
                  ⟨[.recv u.sock], false⟩)
      | _ => none
  | .finish t env =>
      match w.threads t with
      | some (_, .ended) =>
          match w.current with
          | none => some (w, ⟨[], true⟩)
          | some (p, u) =>
              let r := clientTeardown { env with thread := t } p u w.server w.connectionStatus
                w.disconnectReason w.msg
              some ({ w with
                server := r.server
                msg := r.msg
                disconnectReason := teardownReason w.connectionStatus u w.disconnectReason
                threads := Function.update w.threads t none }, ⟨r.out, false⟩)
      | _ => none

/-- The session threads. -/
def sessionMachine (cfg : Config) : Machine World SessionAct SessionOut := ⟨.init, sessionStep cfg⟩

/-- The thread whose session start is the latest. -/
def lastStart (h : History SessionAct SessionOut) : Option Nat :=
  h.foldl (fun acc e => match e.1 with | .start t _ _ => some t | _ => acc) none

@[simp] theorem lastStart_snoc (h : History SessionAct SessionOut)
    (e : SessionAct × SessionOut) : lastStart (h ++ [e]) =
      match e.1 with | .start t _ _ => some t | _ => lastStart h := by
  simp [lastStart, List.foldl_append]

end LinuxChat
