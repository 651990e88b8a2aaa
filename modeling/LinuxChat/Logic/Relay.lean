import LinuxChat.Logic.Seats

/-!
# What is said, accepted and delivered

The threads and the agent of `Chat`, with what a step shows to somebody who
watches the queue: the text a client says and the entry it says it with, the
message that is put into the queue and for whom, the message the agent
delivers. The history then holds the conversation, and the inboxes can be
compared with it.
-/

namespace LinuxChat

open CMem Trace

/-! ## The machine, watched -/

/-- What a step shows of the chat messages on their way. -/
inductive RelayOut
  | quiet
  /-- `p` calls `broadcast_message` for the text of `f`, its entry being `u`. -/
  | said (p : UserPtr) (u : User) (f : Frame) (now : UInt64)
  /-- `p` calls `broadcast_message` for its login. -/
  | announced (p : UserPtr) (u : User) (now : UInt64)
  /-- The `mq_send` of `p` succeeds. -/
  | accepted (p : UserPtr) (m : QueueMessage)
  /-- The agent's loop sends `m` to the logged-in users. -/
  | delivered (m : QueueMessage)
  deriving DecidableEq

/-- What a step from `s` shows. -/
def relayOut (s : Chat) : ChatAct → RelayOut
  | .say p f now =>
      match s.users.get? p with
      | some u => .said p u f now
      | none => .quiet
  | .announce p now =>
      match s.users.get? p with
      | some u => .announced p u now
      | none => .quiet
  | .bus (.send p) =>
      match s.bus.callers p with
      | some (_, m) => .accepted p m
      | none => .quiet
  | .bus .deliver =>
      match s.bus.buffer with
      | some m => .delivered m
      | none => .quiet
  | _ => .quiet

/-- A step of `chatStep`, and what it shows. -/
def relayStep (s : Chat) (act : ChatAct) : Option (Chat × RelayOut) :=
  (chatStep s act).map fun r => (r.1, relayOut s act)

/-- The threads and the agent, watched. -/
def relayMachine : Machine Chat ChatAct RelayOut := ⟨.init, relayStep⟩

abbrev RelayHistory := History ChatAct RelayOut

theorem relayStep_inv {s s' : Chat} {act : ChatAct} {o : RelayOut}
    (hstep : relayStep s act = some (s', o)) : ChatStep s act s' ∧ o = relayOut s act := by
  obtain ⟨r, hr, heq⟩ := Option.map_eq_some_iff.mp hstep
  cases heq
  exact ⟨chatStep_inv hr, rfl⟩

/-- To watch changes nothing: the runs are those of `chatMachine`. -/
theorem watched_iff {acts : List ChatAct} {s : Chat} :
    (∃ h, Run relayMachine anyStep h s ∧ h.map Prod.fst = acts) ↔
      ∃ h, Run chatMachine anyStep h s ∧ h.map Prod.fst = acts := by
  constructor
  · rintro ⟨h, hrun, rfl⟩
    induction hrun with
    | init => exact ⟨[], .init, rfl⟩
    | @step h s act s' o _ _ hstep ih =>
        obtain ⟨h', hrun', hacts⟩ := ih
        obtain ⟨r, hr, heq⟩ := Option.map_eq_some_iff.mp hstep
        cases heq
        exact ⟨_, hrun'.step trivial hr, by simp [hacts]⟩
  · rintro ⟨h, hrun, rfl⟩
    induction hrun with
    | init => exact ⟨[], .init, rfl⟩
    | @step h s act s' o _ _ hstep ih =>
        obtain ⟨h', hrun', hacts⟩ := ih
        have hwatched : relayMachine.step s act = some (s', relayOut s act) :=
          Option.map_eq_some_iff.mpr ⟨_, hstep, rfl⟩
        exact ⟨_, hrun'.step trivial hwatched, by simp [hacts]⟩

/-! ## What a history holds -/

/-- The message `build_Server_to_client` makes of a text. -/
def chatMessage (u : User) (f : Frame) (now : UInt64) : Outgoing :=
  buildServerToClient f.msg now f.announced u.name.bytes u.nameLength

/-- What is handed to `broadcast_message`, and by whom. -/
def RelayOut.handed? : RelayOut → Option (UserPtr × QueueMessage)
  | said p u f now => some (p, ⟨none, (chatMessage u f now).msg⟩)
  | announced p u now => some (p, ⟨none, (loginNotice now u).msg⟩)
  | quiet | accepted .. | delivered _ => none

/-- What goes into the queue, and for whom. -/
def RelayOut.accepted? : RelayOut → Option (UserPtr × QueueMessage)
  | accepted p m => some (p, m)
  | quiet | said .. | announced .. | delivered _ => none

/-- The message the agent delivers in a step, if it does. -/
def RelayOut.delivered? : RelayOut → Option QueueMessage
  | delivered m => some m
  | quiet | said .. | announced .. | accepted .. => none

/-- All calls of `broadcast_message`, in order. -/
def handedOver (h : RelayHistory) : List (UserPtr × QueueMessage) :=
  h.filterMap fun e => e.2.handed?

/-- All that went into the queue, in order. -/
def acceptedMessages (h : RelayHistory) : List (UserPtr × QueueMessage) :=
  h.filterMap fun e => e.2.accepted?

/-- All deliveries, in order. -/
def deliveredMessages (h : RelayHistory) : List QueueMessage := h.filterMap fun e => e.2.delivered?

/-- The message has the type `MT_ServerToClient`. -/
def isChat (m : CombinedMessage) : Bool := m.header.type == MessageType.serverToClient.code

/-- The chat messages of an inbox. -/
def heard (inbox : List CombinedMessage) : List CombinedMessage := inbox.filter isChat

/-- The chat messages among deliveries. -/
def chatsOf (ms : List QueueMessage) : List CombinedMessage := heard (ms.map (·.msg))

variable {h : RelayHistory} {e : ChatAct × RelayOut}

theorem handedOver_snoc : handedOver (h ++ [e]) = handedOver h ++ e.2.handed?.toList := by
  rw [handedOver, List.filterMap_append]
  cases hx : e.2.handed? <;> simp [handedOver, hx]

theorem acceptedMessages_snoc :
    acceptedMessages (h ++ [e]) = acceptedMessages h ++ e.2.accepted?.toList := by
  rw [acceptedMessages, List.filterMap_append]
  cases hx : e.2.accepted? <;> simp [acceptedMessages, hx]

theorem deliveredMessages_snoc :
    deliveredMessages (h ++ [e]) = deliveredMessages h ++ e.2.delivered?.toList := by
  rw [deliveredMessages, List.filterMap_append]
  cases hx : e.2.delivered? <;> simp [deliveredMessages, hx]

theorem deliveredMessages_append (h h' : RelayHistory) :
    deliveredMessages (h ++ h') = deliveredMessages h ++ deliveredMessages h' :=
  List.filterMap_append ..

@[simp] theorem heard_append (a b : List CombinedMessage) : heard (a ++ b) = heard a ++ heard b :=
  List.filter_append ..

@[simp] theorem chatsOf_append (a b : List QueueMessage) :
    chatsOf (a ++ b) = chatsOf a ++ chatsOf b := by
  rw [chatsOf, List.map_append, heard_append, chatsOf, chatsOf]

/-! ## Steps of the queue -/

theorem broadcastStep_send {b b' : Broadcast UserPtr QueueMessage} {p : UserPtr}
    {o : BroadcastOut QueueMessage} (hstep : broadcastStep b (.send p) = some (b', o)) :
    ∃ m, b.callers p = some (.sending, m) ∧ b'.queue = b.queue ++ [m] ∧ b'.hand = b.hand ∧
      b'.callers = Function.update b.callers p none ∧ o = .returned m true := by
  simp only [broadcastStep] at hstep
  split at hstep
  · rename_i m hcall
    split at hstep <;> cases hstep
    exact ⟨m, hcall, rfl, rfl, rfl, rfl⟩
  · cases hstep

theorem broadcastStep_deliver {b b' : Broadcast UserPtr QueueMessage}
    {o : BroadcastOut QueueMessage} (hstep : broadcastStep b .deliver = some (b', o)) :
    b.hand = b.buffer.toList ∧ b'.queue = b.queue ∧ b'.hand = [] ∧ b'.callers = b.callers ∧
      o = .delivered b.buffer := by
  simp only [broadcastStep] at hstep
  split at hstep <;> cases hstep
  rename_i hagent
  exact ⟨by simp [Broadcast.hand, hagent], rfl, rfl, rfl, rfl⟩

/-- Every other step delivers nothing. -/
theorem broadcastStep_undelivered {b b' : Broadcast UserPtr QueueMessage}
    {a : BroadcastAct UserPtr QueueMessage} {o : BroadcastOut QueueMessage}
    (hstep : broadcastStep b a = some (b', o)) (hdeliver : a ≠ .deliver) (m : Option QueueMessage) :
    o ≠ .delivered m := by
  intro hm
  subst hm
  exact hdeliver (broadcastStep_delivered hstep).1

/-- Every other step, a failing `mq_receive` aside, keeps what is on its way. -/
theorem broadcastStep_keeps {b b' : Broadcast UserPtr QueueMessage}
    {a : BroadcastAct UserPtr QueueMessage} {o : BroadcastOut QueueMessage}
    (hstep : broadcastStep b a = some (b', o)) (hsend : ∀ p, a ≠ .send p) (hdeliver : a ≠ .deliver)
    (hfail : a ≠ .receiveFails) : b'.hand ++ b'.queue = b.hand ++ b.queue := by
  cases broadcastStep_move hstep with
  | sent => exact absurd rfl (hsend _)
  | delivered => exact absurd rfl hdeliver
  | failed => exact absurd rfl hfail
  | received hqueue hnone hhand _ => rw [hhand, hnone, hqueue]; rfl
  | getattr _ hqueue hhand _ => rw [hqueue, hhand]
  | passed _ _ hqueue hhand _ => rw [hqueue, hhand]
  | refused _ _ hqueue hhand _ => rw [hqueue, hhand]
  | other hqueue hhand _ => rw [hqueue, hhand]

theorem relayOut_other {s : Chat} {a : BroadcastAct UserPtr QueueMessage}
    (hsend : ∀ p, a ≠ .send p) (hdeliver : a ≠ .deliver) : relayOut s (.bus a) = .quiet := by
  cases a with
  | send p => exact absurd rfl (hsend p)
  | deliver => exact absurd rfl hdeliver
  | _ => rfl

/-! ## What is on its way -/

/-- No `mq_receive` of the run fails. -/
def receiving : Guard Chat ChatAct RelayOut := fun _ _ act =>
  (act matches .bus .receiveFails) = false

instance (h : RelayHistory) (s : Chat) (act : ChatAct) : Decidable (receiving h s act) :=
  inferInstanceAs (Decidable (_ = false))

/-- What was delivered, what the agent holds and what is queued is what was accepted. -/
def Relayed (h : RelayHistory) (s : Chat) : Prop :=
  deliveredMessages h ++ s.bus.hand ++ s.bus.queue = (acceptedMessages h).map Prod.snd

variable {s s' : Chat} {act : ChatAct} {o : RelayOut}

/-- A step that leaves the messages on their way alone. -/
theorem Relayed.frame (hinv : Relayed h s) (hout : o.accepted? = none ∧ o.delivered? = none)
    (hway : s'.bus.hand ++ s'.bus.queue = s.bus.hand ++ s.bus.queue) :
    Relayed (h ++ [(act, o)]) s' := by
  unfold Relayed at hinv ⊢
  rw [acceptedMessages_snoc, deliveredMessages_snoc, hout.1, hout.2]
  simpa only [Option.toList_none, List.append_nil, List.append_assoc, hway] using hinv

theorem relayed_step (hinv : Relayed h s) (hg : receiving h s act)
    (hstep : relayStep s act = some (s', o)) : Relayed (h ++ [(act, o)]) s' := by
  obtain ⟨hchat, rfl⟩ := relayStep_inv hstep
  cases hchat with
  | @announce p u now bus o hu hphase hbus =>
      exact hinv.frame (by simp [relayOut, hu, RelayOut.accepted?, RelayOut.delivered?])
        (broadcastStep_keeps hbus (by simp) (by simp) (by simp))
  | @say p u f now bus o hu hidle hcode hbus =>
      exact hinv.frame (by simp [relayOut, hu, RelayOut.accepted?, RelayOut.delivered?])
        (broadcastStep_keeps hbus (by simp) (by simp) (by simp))
  | @bus a bus o hget hbus =>
      by_cases hsend : ∃ p, a = .send p
      · obtain ⟨p, rfl⟩ := hsend
        obtain ⟨m, hcall, hqueue, hhand, -, -⟩ := broadcastStep_send hbus
        unfold Relayed at hinv ⊢
        rw [acceptedMessages_snoc, deliveredMessages_snoc]
        simp [relayOut, hcall, RelayOut.accepted?, RelayOut.delivered?, hqueue, hhand, ← hinv]
      by_cases hdeliver : a = .deliver
      · subst hdeliver
        obtain ⟨hhand, hqueue, hnone, -, -⟩ := broadcastStep_deliver hbus
        unfold Relayed at hinv ⊢
        rw [acceptedMessages_snoc, deliveredMessages_snoc]
        cases hbuffer : s.bus.buffer <;>
          simp [relayOut, hbuffer, RelayOut.accepted?, RelayOut.delivered?, hqueue, hnone, hhand,
            ← hinv]
      · have hno : ∀ p, a ≠ .send p := fun p hp => hsend ⟨p, hp⟩
        rw [relayOut_other hno hdeliver]
        refine hinv.frame ⟨rfl, rfl⟩ (broadcastStep_keeps hbus hno hdeliver ?_)
        rintro rfl
        cases hg
  | _ => exact hinv.frame ⟨rfl, rfl⟩ rfl

theorem relayed_init : Relayed [] Chat.init := rfl

theorem run_relayed (hrun : Run relayMachine receiving h s) : Relayed h s :=
  hrun.invariant (I := Relayed) relayed_init
    fun _ _ _ _ _ hinv hg hstep => relayed_step hinv hg hstep

/-! ## Where messages come from -/

/-- Every message of the queue's variables was handed over, to nobody's exclusion. -/
def Handed (h : RelayHistory) (s : Chat) : Prop :=
  ∀ m, s.bus.Carries m → m.sender = none ∧ ∃ p, (p, m) ∈ handedOver h

theorem handed_step (hinv : Handed h s) (hstep : relayStep s act = some (s', o)) :
    Handed (h ++ [(act, o)]) s' := by
  obtain ⟨hchat, rfl⟩ := relayStep_inv hstep
  intro m hm
  rw [handedOver_snoc]
  have hkept : s.bus.Carries m →
      m.sender = none ∧ ∃ p, (p, m) ∈ handedOver h ++ (relayOut s act).handed?.toList := by
    intro hold
    obtain ⟨hsender, p, hp⟩ := hinv m hold
    exact ⟨hsender, p, List.mem_append_left _ hp⟩
  cases hchat with
  | @announce q u now bus o hu hphase hbus =>
      rcases broadcastStep_carries hbus hm with hold | ⟨c, ha⟩
      · exact hkept hold
      · cases ha
        exact ⟨rfl, q, by simp [relayOut, hu, RelayOut.handed?]⟩
  | @say q u f now bus o hu hidle hcode hbus =>
      rcases broadcastStep_carries hbus hm with hold | ⟨c, ha⟩
      · exact hkept hold
      · cases ha
        exact ⟨rfl, q, by simp [relayOut, hu, RelayOut.handed?, chatMessage]⟩
  | @bus a bus o hget hbus =>
      rcases broadcastStep_carries hbus hm with hold | ⟨c, ha⟩
      · exact hkept hold
      · exact absurd ha (hget c m)
  | _ => exact hkept hm

theorem handed_init : Handed [] Chat.init := by
  rintro m (hm | hm | ⟨c, φ, hc⟩)
  · cases hm
  · cases hm
  · cases hc

theorem run_handed {G : Guard Chat ChatAct RelayOut} (hrun : Run relayMachine G h s) :
    Handed h s :=
  hrun.invariant (I := Handed) handed_init fun _ _ _ _ _ hinv _ hstep => handed_step hinv hstep

end LinuxChat
