import LinuxChat.Model.ClientThread

/-!
# Client threads in `broadcast_message`

Any number of client threads call `broadcast_message` from the two places
clientthread.c does: for the `UserAdd` of a login, whose result is not looked
at, and for a text, whose sender is told when the queue refuses it. The calls
take the steps of `Broadcast`, in any order with those of the agent and of the
admin; what a thread does with the result follows in the step in which its
call returns.
-/

namespace LinuxChat

open CMem Trace

/-- Where a thread calls `broadcast_message`. -/
inductive CallSite
  /-- `case NV_Received_login`, for the entry the login left. -/
  | login (u : User) (env : Env)
  /-- `case NV_Received_Message`, for the message that was received. -/
  | text (u : User) (m : CombinedMessage) (env : Env)
  deriving DecidableEq

/-- The message the thread passes. -/
def CallSite.message : CallSite → Outgoing
  | .login u env => loginNotice env.now u
  | .text u m env =>
      buildServerToClient m env.now m.header.length.toNat u.name.bytes u.nameLength

/-- The call is the one of a login. -/
def CallSite.isLogin : CallSite → Bool
  | .login _ _ => true
  | .text _ _ _ => false

/-- The reply to the sender of a text that found no place in the queue. -/
def queueFullReply (cfg : Config) (u : User) (m : CombinedMessage) (env : Env) : Output :=
  .reply u.sock (buildServerResponse cfg (CallSite.text u m env).message.msg env.now
    (lit "Message Queue is sadly full, wait for admin to resume chat"))

/-- What follows the call. A login does not look at the result. -/
def CallSite.afterCall (cfg : Config) (sent : Bool) : CallSite → List Output
  | .login _ _ => []
  | .text u m env => if sent then [] else [queueFullReply cfg u m env]

/-- The message case of the switch is its call and what follows it. -/
theorem handleMessage_out (cfg : Config) (env : Env) (u : User) (sv : Server)
    (m : CombinedMessage) :
    (handleMessage cfg env u sv m m.header.length.toNat).out =
      .enqueue (CallSite.text u m env).message
          (broadcastMessage sv.queue (CallSite.text u m env).message.msg none).1 ::
        (CallSite.text u m env).afterCall cfg
          (broadcastMessage sv.queue (CallSite.text u m env).message.msg none).1 := rfl

/-- The queue with its agent and callers, and the place each caller is in. -/
structure Senders where
  bus : Broadcast UserPtr QueueMessage
  sites : UserPtr → Option CallSite

/-- An empty queue, and no thread in `broadcast_message`. -/
def Senders.init : Senders := ⟨.init, fun _ => none⟩

inductive SenderAct
  /-- The thread of `p` calls `broadcast_message`: `mq_getattr`. -/
  | call (p : UserPtr) (site : CallSite)
  /-- Any other step of `broadcastagent.c`. -/
  | bus (a : BroadcastAct UserPtr QueueMessage)

/-- The caller whose call a step may end. -/
def BroadcastAct.caller {ι μ : Type} : BroadcastAct ι μ → Option ι
  | .test c | .send c => some c
  | _ => none

/-- What the caller does with the result. -/
def senderOut (cfg : Config) (s : Senders) (a : BroadcastAct UserPtr QueueMessage) :
    BroadcastOut QueueMessage → List Output
  | .returned _ sent =>
      match a.caller.bind s.sites with
      | some site => site.afterCall cfg sent
      | none => []
  | _ => []

/-- One step of a thread in a call, of the agent or of the admin. -/
def senderStep (cfg : Config) (s : Senders) :
    SenderAct → Option (Senders × BroadcastOut QueueMessage × List Output)
  | .call p site =>
      (broadcastStep s.bus (.getattr p ⟨none, site.message.msg⟩)).map fun r =>
        ({ bus := r.1, sites := Function.update s.sites p (some site) }, r.2, [])
  | .bus (.getattr _ _) => none
  | .bus a =>
      (broadcastStep s.bus a).map fun r => ({ s with bus := r.1 }, r.2, senderOut cfg s a r.2)

/-- The threads, the agent and the admin. -/
def senderMachine (cfg : Config) :
    Machine Senders SenderAct (BroadcastOut QueueMessage × List Output) :=
  ⟨.init, senderStep cfg⟩

end LinuxChat
