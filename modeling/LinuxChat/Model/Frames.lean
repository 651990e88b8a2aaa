import LinuxChat.Lib.Trace
import LinuxChat.Model.ClientThread

/-!
# The server, frame by frame

The sequential view: connections come, each of their frames is handled in one
piece with `self` at the entry of the connection it came from, connections
go, and the broadcast agent takes messages off the queue in between. The
header of a frame arrives whole; the read of its body may return any count.
-/

namespace LinuxChat

open CMem ByteStream Trace

/-- A frame as a session gets it: the header and what `read` returns for the body. -/
structure Frame where
  header : MessageHeader
  body : Option (List UInt8)
  deriving DecidableEq

/-- What `recv` and `read` find in one pass. -/
def Frame.script (f : Frame) : List (Option (List UInt8)) := [some f.header.wire, f.body]

/-- What one pass receives for a frame. -/
def Frame.received (f : Frame) : Received := (receive scripted f.script).1

/-- A login request that announces `n` bytes and carries `name`. -/
def Frame.login (n : Nat) (name : List UInt8) : Frame :=
  ⟨⟨MessageType.loginRequest.code, UInt16.ofNat n⟩, some (be32 0x0badf00d ++ [0] ++ name)⟩

/-- A text that announces `n` bytes and carries `text`. -/
def Frame.text (n : Nat) (text : List UInt8) : Frame :=
  ⟨⟨MessageType.clientToServer.code, UInt16.ofNat n⟩, some text⟩

inductive FrameEvent
  /-- A connection on `sock`, served by `thread`; `malloc` returns `p` for its entry. -/
  | connect (p : UserPtr) (thread sock : Nat)
  /-- A frame of the connection with entry `p`. -/
  | frame (p : UserPtr) (f : Frame) (env : Env)
  /-- The header read of `p` returns `status`, 0 or -1, and the session ends. -/
  | disconnect (p : UserPtr) (status : Int) (env : Env)
  /-- The agent takes a message off the queue and delivers it. -/
  | deliver
  deriving DecidableEq

/-- The server between two frames. -/
def frameStep (cfg : Config) (sv : Server) : FrameEvent → Option (Server × Handled)
  | .connect p thread sock =>
      if h : p ∈ sv.users.keys then none
      else if (sv.users.findUser sock).isSome then none
      else
        let sv' := { sv with users := (sv.users.createUser p thread sock h).2 }
        some (sv', ⟨sv', .zero, [], []⟩)
  | .frame p f env =>
      match sv.users.get? p with
      | none => none
      | some u =>
          let r := clientPass cfg env p u sv f.received
          some (r.server, r)
  | .disconnect p status env =>
      match sv.users.get? p with
      | none => none
      | some u =>
          if 0 < status then none
          else
            let r := clientTeardown env p u sv status .communicationError .zero
            some (r.server, r)
  | .deliver =>
      if sv.broadcastPaused then none
      else
        match sv.queue with
        | [] => none
        | _ :: queue =>
            let sv' := { sv with queue }
            some (sv', ⟨sv', .zero, [], []⟩)

/-- The server that handles one frame after the other. -/
def frameMachine (cfg : Config) : Machine Server FrameEvent Handled := ⟨.init, frameStep cfg⟩

end LinuxChat
