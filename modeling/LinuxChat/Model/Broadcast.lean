import Mathlib.Logic.Function.Basic
import LinuxChat.Lib.Trace

/-!
# The broadcast queue, its agent and the pause

`broadcastagent.c` step by step, over any callers `ι` and any messages `μ`.
Every access to something shared is a step of its own: `mq_getattr` (which
writes the one `attr` of all threads), the test of `attr`, `mq_send`,
`mq_receive`, the semaphore operations, the flag. The delivery loop is one
step, it holds `userLock`. The commands are those of one admin connection,
one after the other.
-/

namespace LinuxChat

open Trace

/-- `attr.mq_maxmsg`. -/
def mqMaxmsg : Nat := 10

/-- Where `broadcast_agent` is in its loop. -/
inductive AgentPhase
  /-- In `mq_receive`. -/
  | receiving
  /-- In `sem_wait`. -/
  | waiting
  /-- In the loop over the users. -/
  | delivering
  /-- Before `sem_post`. -/
  | posting
  deriving DecidableEq, Repr

/-- The agent is between `sem_wait` and `sem_post`. -/
def AgentPhase.holdsToken : AgentPhase → Bool
  | .delivering | .posting => true
  | .receiving | .waiting => false

/-- Where the admin's thread is in a `/pause` or `/resume`. -/
inductive AdminPhase
  | idle
  /-- `Is_broadcast_paused` was FALSE: in the `sem_wait` of `pause_broadcast`. -/
  | pausing
  /-- Before `broadcast_Paused = TRUE`. -/
  | settingFlag
  /-- `Is_broadcast_paused` was TRUE: before the `sem_post` of `resume_broadcast`. -/
  | resuming
  /-- Before `broadcast_Paused = FALSE`. -/
  | clearingFlag
  deriving DecidableEq, Repr

/-- Where a thread is in `broadcast_message`. -/
inductive SendPhase
  /-- Behind `mq_getattr`. -/
  | testing
  /-- In `mq_send`. -/
  | sending
  deriving DecidableEq, Repr

/-- The state of `broadcastagent.c` and of the threads in it. -/
structure Broadcast (ι μ : Type) where
  queue : List μ
  /-- `attr.mq_curmsgs`. -/
  curmsgs : Nat
  /-- The value of `broadcast_sem`. -/
  tokens : Nat
  /-- `broadcast_Paused`. -/
  paused : Bool
  agent : AgentPhase
  /-- The agent's `buffer`, once something was received into it. -/
  buffer : Option μ
  admin : AdminPhase
  callers : ι → Option (SendPhase × μ)

namespace Broadcast

variable {ι μ : Type}

/-- The state `broadcast_agent_init` leaves. -/
def init : Broadcast ι μ := ⟨[], 0, 1, false, .receiving, none, .idle, fun _ => none⟩

/-- The message the agent has received and not yet delivered. -/
def hand (s : Broadcast ι μ) : List μ :=
  match s.agent with
  | .waiting | .delivering => s.buffer.toList
  | .receiving | .posting => []

end Broadcast

inductive BroadcastAct (ι μ : Type)
  /-- `mq_getattr` for `broadcast_message(m)`. -/
  | getattr (c : ι) (m : μ)
  /-- `attr.mq_curmsgs < attr.mq_maxmsg`. -/
  | test (c : ι)
  /-- `mq_send`; it waits while the queue is full. -/
  | send (c : ι)
  /-- `mq_receive`; it waits while the queue is empty. -/
  | receive
  /-- `mq_receive` returns -1 and leaves the buffer as it was. -/
  | receiveFails
  /-- `sem_wait` of the agent. -/
  | wait
  /-- The loop over the users. -/
  | deliver
  /-- `sem_post` of the agent. -/
  | post
  /-- `Is_broadcast_paused` for `/pause`. -/
  | pauseTest
  /-- `sem_wait` of `pause_broadcast`. -/
  | pauseWait
  /-- `broadcast_Paused = TRUE`. -/
  | pauseFlag
  /-- `Is_broadcast_paused` for `/resume`. -/
  | resumeTest
  /-- `sem_post` of `resume_broadcast`. -/
  | resumePost
  /-- `broadcast_Paused = FALSE`. -/
  | resumeFlag
  deriving DecidableEq

/-- What a step shows of the messages. -/
inductive BroadcastOut (μ : Type)
  | quiet
  /-- `broadcast_message(m)` returns. -/
  | returned (m : μ) (sent : Bool)
  /-- The loop over the users has sent what is in the buffer. -/
  | delivered (m : Option μ)
  deriving DecidableEq

variable {ι μ : Type} [DecidableEq ι]

/-- One step of a caller, the agent or the admin's thread; `none` where it waits. -/
def broadcastStep (s : Broadcast ι μ) :
    BroadcastAct ι μ → Option (Broadcast ι μ × BroadcastOut μ)
  | .getattr c m =>
      match s.callers c with
      | some _ => none
      | none =>
          some ({ s with
            curmsgs := s.queue.length
            callers := Function.update s.callers c (some (.testing, m)) }, .quiet)
  | .test c =>
      match s.callers c with
      | some (.testing, m) =>
          if s.curmsgs < mqMaxmsg then
            some ({ s with callers := Function.update s.callers c (some (.sending, m)) }, .quiet)
          else some ({ s with callers := Function.update s.callers c none }, .returned m false)
      | _ => none
  | .send c =>
      match s.callers c with
      | some (.sending, m) =>
          if s.queue.length < mqMaxmsg then
            some ({ s with
              queue := s.queue ++ [m]
              callers := Function.update s.callers c none }, .returned m true)
          else none
      | _ => none
  | .receive =>
      match s.agent, s.queue with
      | .receiving, m :: queue =>
          some ({ s with queue, buffer := some m, agent := .waiting }, .quiet)
      | _, _ => none
  | .receiveFails =>
      -- The agent goes on with whatever is in its buffer.
      if s.agent = .receiving then some ({ s with agent := .waiting }, .quiet) else none
  | .wait =>
      if s.agent = .waiting ∧ 0 < s.tokens then
        some ({ s with tokens := s.tokens - 1, agent := .delivering }, .quiet)
      else none
  | .deliver =>
      if s.agent = .delivering then some ({ s with agent := .posting }, .delivered s.buffer)
      else none
  | .post =>
      if s.agent = .posting then
        some ({ s with tokens := s.tokens + 1, agent := .receiving }, .quiet)
      else none
  | .pauseTest =>
      if s.admin = .idle then
        some ({ s with admin := if s.paused then .idle else .pausing }, .quiet)
      else none
  | .pauseWait =>
      if s.admin = .pausing ∧ 0 < s.tokens then
        some ({ s with tokens := s.tokens - 1, admin := .settingFlag }, .quiet)
      else none
  | .pauseFlag =>
      if s.admin = .settingFlag then some ({ s with paused := true, admin := .idle }, .quiet)
      else none
  | .resumeTest =>
      if s.admin = .idle then
        some ({ s with admin := if s.paused then .resuming else .idle }, .quiet)
      else none
  | .resumePost =>
      if s.admin = .resuming then
        -- The token comes back before the flag falls; the agent may deliver in between.
        some ({ s with tokens := s.tokens + 1, admin := .clearingFlag }, .quiet)
      else none
  | .resumeFlag =>
      if s.admin = .clearingFlag then some ({ s with paused := false, admin := .idle }, .quiet)
      else none

/-- The queue, its agent and its callers. -/
def broadcastMachine (ι μ : Type) [DecidableEq ι] :
    Machine (Broadcast ι μ) (BroadcastAct ι μ) (BroadcastOut μ) :=
  ⟨.init, broadcastStep⟩

/-! ## What a history shows -/

/-- The messages for which `mq_send` has succeeded, in order. -/
def sent (h : History (BroadcastAct ι μ) (BroadcastOut μ)) : List μ :=
  h.filterMap fun e =>
    match e.2 with
    | .returned m true => some m
    | _ => none

/-- The messages that have been delivered, in order. -/
def delivered (h : History (BroadcastAct ι μ) (BroadcastOut μ)) : List μ :=
  h.filterMap fun e =>
    match e.2 with
    | .delivered m => m
    | _ => none

/-- `pause_broadcast` has taken the token and `resume_broadcast` has not given it back. -/
def pauseHolds (h : History (BroadcastAct ι μ) (BroadcastOut μ)) : Bool :=
  latch (fun a => a matches .pauseWait) (fun a => a matches .resumePost) h

/-- `pause_broadcast` has completed and `resume_broadcast` has not given the token back. -/
def pauseComplete (h : History (BroadcastAct ι μ) (BroadcastOut μ)) : Bool :=
  latch (fun a => a matches .pauseFlag) (fun a => a matches .resumePost) h

end LinuxChat
