import LinuxChat.Lib.Trace
import LinuxChat.Model.Sending

/-!
# The broadcast agent

The loop of `broadcast_agent`, one pass a step: `mq_receive` succeeds or
fails, and what is in `buffer` goes to the users there are by then. The one
buffer serves all passes, and is not written before the first.
-/

namespace LinuxChat

open CMem Trace

/-- What the agent keeps between two passes. -/
structure Agent where
  buffer : QueueMessage
  running : Bool
  deriving DecidableEq

/-- A pass, with the list its loop over the users finds. -/
inductive AgentAct
  /-- `mq_receive` returns a message, whose `sender` is NULL. -/
  | receive (m : CombinedMessage) (users : UserList)
  /-- `mq_receive` returns -1 and leaves the buffer as it was. -/
  | receiveFails (users : UserList)
  deriving DecidableEq

def AgentAct.users : AgentAct → UserList
  | receive _ users => users
  | receiveFails users => users

/-- The calls of `network_Send`: the target, its socket and the message. -/
abbrev AgentOut := List (UserPtr × Nat × CombinedMessage)

/-- The sends of the agent's loop over the users, in their order. -/
def agentLoop (buffer : QueueMessage) (users : UserList) : AgentOut :=
  (users.entries.filter (SendLoop.broadcast buffer).picks).map fun e =>
    (e.1, (SendLoop.broadcast buffer).call e)

/-- One pass of the `while` loop of `broadcast_agent`. -/
def agentStep (s : Agent) : AgentAct → Option (Agent × AgentOut)
  | .receive m users =>
      let buffer : QueueMessage := ⟨none, m⟩
      some ({ s with buffer }, agentLoop buffer users)
  | .receiveFails users =>
      -- The error branch only clears `running`: the loop over the users sends the old buffer.
      some ({ s with running := false }, agentLoop s.buffer users)

/-- The agent, whose buffer holds anything at first. -/
def agentMachine (buffer : QueueMessage) : Machine Agent AgentAct AgentOut :=
  ⟨⟨buffer, true⟩, agentStep⟩

/-- The calls are those of the agent's loop in one piece. -/
theorem map_agentLoop (buffer : QueueMessage) (users : UserList) :
    (agentLoop buffer users).map Prod.snd = (SendLoop.broadcast buffer).calls users.entries := by
  simp [agentLoop, SendLoop.calls, Function.comp_def]

/-! ## What a history shows -/

/-- The messages received, in order. -/
def receivedMessages (h : History AgentAct AgentOut) : List CombinedMessage :=
  h.filterMap fun e =>
    match e.1 with
    | .receive m _ => some m
    | .receiveFails _ => none

/-- The messages of some calls that go to one user. -/
def AgentOut.to (out : AgentOut) (p : UserPtr) : List CombinedMessage :=
  (out.filter fun c => c.1 = p).map fun c => c.2.2

/-- The messages sent to a user, in order. -/
def messagesTo (h : History AgentAct AgentOut) (p : UserPtr) : List CombinedMessage :=
  h.flatMap fun e => AgentOut.to e.2 p

/-- The user is logged in at every pass. -/
def StaysLoggedIn (h : History AgentAct AgentOut) (p : UserPtr) : Prop :=
  ∀ e ∈ h, ∃ u, e.1.users.get? p = some u ∧ u.loggedIn = true

end LinuxChat
