import LinuxChat.Model.Agent
import LinuxChat.Logic.FrameStep

/-!
# What a failed receive delivers

A pass of the agent whose `mq_receive` fails sends what the buffer holds from
before. Each user gets exactly the messages that were received, and a failed
receive sends nothing, if and only if every receive that fails finds nobody to
send to (`deliversReceived_iff`).
-/

namespace LinuxChat

open CMem Trace

/-- A failed receive sends nothing, and who stays logged in is sent the messages received, each
once and in order. -/
structure DeliversReceived (h : History AgentAct AgentOut) : Prop where
  silent : ∀ users out, (AgentAct.receiveFails users, out) ∈ h → out = []
  inOrder : ∀ p, StaysLoggedIn h p → messagesTo h p = receivedMessages h

/-- A receive fails only while nobody is logged in whom the buffer does not name as sender. -/
def failsUnheard : Guard Agent AgentAct AgentOut := fun _ s a =>
  match a with
  | .receive .. => True
  | .receiveFails users => ∀ e ∈ users.loggedInUsers, s.buffer.sender = some e.1

instance (h : History AgentAct AgentOut) (s : Agent) : (a : AgentAct) →
    Decidable (failsUnheard h s a)
  | .receive .. => isTrue trivial
  | .receiveFails users => inferInstanceAs (Decidable (∀ e ∈ users.loggedInUsers, _))

/-! ## The queue -/

/-- The queue grows by a message without a sender, or not at all. -/
theorem handleFrame_queue (cfg : Config) (env : Env) (p : UserPtr) (u : User) (sv : Server)
    (code : NetworkValidationCode) (m : CombinedMessage) :
    (handleFrame cfg env p u sv code m).server.queue = sv.queue ∨
      ∃ m', (handleFrame cfg env p u sv code m).server.queue = sv.queue ++ [⟨none, m'⟩] := by
  have hput : ∀ m', (broadcastMessage sv.queue m' none).2 = sv.queue ∨
      ∃ m'', (broadcastMessage sv.queue m' none).2 = sv.queue ++ [⟨none, m''⟩] := by
    intro m'
    unfold broadcastMessage
    split
    · exact .inr ⟨m', rfl⟩
    · exact .inl rfl
  cases code with
  | receivedLogin =>
      simp only [handleFrame, handleLogin]
      split
      · exact hput _
      · exact .inl rfl
  | receivedMessage => exact hput _
  | receivedServerCommand =>
      refine .inl ?_
      simp only [handleFrame, handleCommand]
      split
      · split
        · unfold handleKick
          split <;> rfl
        · unfold handlePause
          split <;> rfl
        · unfold handleResume
          split <;> rfl
        all_goals rfl
      · rfl
  | invalidLength => exact .inl rfl
  | magicNumInvalid => exact .inl rfl
  | versionInvalid => exact .inl rfl
  | nameLengthInvalid => exact .inl rfl
  | zero => exact .inl rfl

/-- No message of the queue has a sender, so the loop of the agent spares nobody. -/
theorem queue_sender {cfg : Config} {h : History FrameEvent Handled} {sv : Server}
    (hrun : Run (frameMachine cfg) anyStep h sv) : ∀ q ∈ sv.queue, q.sender = none := by
  refine hrun.invariant (I := fun _ sv => ∀ q ∈ sv.queue, q.sender = none) ?_ ?_
  · intro q hq
    cases hq
  · intro h sv ev sv' r hsv _ hstep
    cases ev with
    | connect p thread sock =>
        simp only [frameMachine, frameStep] at hstep
        split at hstep
        · cases hstep
        · split at hstep
          · cases hstep
          · cases hstep
            exact hsv
    | frame p f env =>
        obtain ⟨u, -, rfl, rfl⟩ := frameStep_frame hstep
        intro q hq
        rw [f.received_eq] at hq
        rcases handleFrame_queue cfg env p u sv f.code f.msg with hsame | ⟨m, hput⟩
        · exact hsv q (hsame ▸ hq)
        · rcases List.mem_append.mp (hput ▸ hq) with hold | hnew
          · exact hsv q hold
          · rw [List.mem_singleton.mp hnew]
    | disconnect p status env =>
        obtain ⟨u, -, -, rfl, rfl⟩ := @frameStep_disconnect cfg _ _ _ _ _ _ hstep
        exact hsv
    | deliver =>
        simp only [frameMachine, frameStep] at hstep
        split at hstep
        · cases hstep
        · split at hstep
          · cases hstep
          · rename_i hqueue
            cases hstep
            intro q hq
            exact hsv q (hqueue ▸ List.mem_cons_of_mem _ hq)

/-! ## One pass -/

variable {g : QueueMessage} {h : History AgentAct AgentOut} {s s' : Agent} {a : AgentAct}
  {out : AgentOut} {p : UserPtr}

/-- The loop sends to nobody just where it finds nobody to send to. -/
theorem agentLoop_eq_nil {buffer : QueueMessage} {users : UserList} :
    agentLoop buffer users = [] ↔ ∀ e ∈ users.loggedInUsers, buffer.sender = some e.1 := by
  rw [agentLoop, List.map_eq_nil_iff, List.filter_eq_nil_iff]
  constructor
  · intro hno e he
    obtain ⟨hmem, hin⟩ := List.mem_filter.mp he
    have hpick := hno e hmem
    simp only [SendLoop.picks, hin, Bool.and_true, decide_eq_true_eq, not_not] at hpick
    exact hpick.symm
  · intro hall e he
    by_cases hin : e.2.loggedIn = true
    · have hsender := hall e (List.mem_filter.mpr ⟨he, hin⟩)
      simp [SendLoop.picks, hsender]
    · simp [SendLoop.picks, hin]

/-- A logged-in user is sent a received message once. -/
theorem to_agentLoop {m : CombinedMessage} {users : UserList} {u : User}
    (hu : users.get? p = some u) (hin : u.loggedIn = true) :
    AgentOut.to (agentLoop ⟨none, m⟩ users) p = [m] := by
  have hpicks : (SendLoop.broadcast ⟨none, m⟩).picks = fun e => e.2.loggedIn := by
    funext e
    simp [SendLoop.picks]
  have hone : (users.entries.filter fun e => e.2.loggedIn).filter (fun e => e.1 = p) =
      [(p, u)] := by
    rw [List.filter_comm, Table.filter_key hu]
    exact List.filter_cons_of_pos hin
  rw [AgentOut.to, agentLoop, hpicks, List.filter_map, List.map_map]
  show List.map _ (List.filter (fun e : UserPtr × User => e.1 = p) _) = _
  rw [hone]
  rfl

/-- A pass sends nothing that was not received just where it meets the condition. -/
theorem agentStep_receive {m : CombinedMessage} {users : UserList}
    (hstep : agentStep s (.receive m users) = some (s', out)) :
    out = agentLoop ⟨none, m⟩ users := by
  cases hstep
  rfl

theorem agentStep_receiveFails {users : UserList}
    (hstep : agentStep s (.receiveFails users) = some (s', out)) :
    out = agentLoop s.buffer users := by
  cases hstep
  rfl

/-! ## Runs -/

/-- Where every failing receive finds nobody to send to, the messages received are delivered. -/
theorem run_delivers (hrun : Run (agentMachine g) failsUnheard h s) : DeliversReceived h := by
  refine Run.invariant (I := fun h _ => DeliversReceived h) ?_ ?_ hrun
  · constructor
    · intro users out he
      cases he
    · intro p _
      rfl
  · intro h s a s' out hd hg hstep
    have hlast : ∀ users, a = .receiveFails users → out = [] := by
      rintro users rfl
      rw [agentStep_receiveFails hstep]
      exact agentLoop_eq_nil.mpr hg
    constructor
    · intro users out' he
      rcases List.mem_append.mp he with he | he
      · exact hd.silent users out' he
      · cases List.mem_singleton.mp he
        exact hlast users rfl
    · intro p hstays
      have hbefore := hd.inOrder p fun e he => hstays e (List.mem_append_left _ he)
      obtain ⟨u, hu, hin⟩ := hstays (a, out) (List.mem_append_right _ (List.mem_singleton_self _))
      rw [messagesTo, receivedMessages, List.flatMap_append, List.filterMap_append]
      rw [messagesTo, receivedMessages] at hbefore
      rw [hbefore]
      congr 1
      cases a with
      | receive m users =>
          rw [agentStep_receive hstep, List.flatMap_singleton]
          exact to_agentLoop hu hin
      | receiveFails users =>
          rw [hlast users rfl]
          rfl

/-- A run whose failing receives send nothing met the condition at each of them. -/
theorem run_of_silent (hrun : Run (agentMachine g) anyStep h s)
    (hsilent : ∀ users out, (AgentAct.receiveFails users, out) ∈ h → out = []) :
    Run (agentMachine g) failsUnheard h s := by
  induction hrun with
  | init => exact .init
  | @step h s a s' out _ _ hstep ih =>
      refine .step (ih fun users out' he => hsilent users out' (List.mem_append_left _ he)) ?_ hstep
      cases a with
      | receive m users => trivial
      | receiveFails users =>
          have hnil := hsilent users out (List.mem_append_right _ (List.mem_singleton_self _))
          rw [agentStep_receiveFails hstep] at hnil
          exact agentLoop_eq_nil.mp hnil

/-- **Failed receives.** In a run of the agent, whatever its buffer holds at first and whoever is
logged in at each pass, a failed receive sends nothing and every user who stays logged in is
sent exactly the messages received, if and only if every receive that fails finds nobody logged
in but the user the buffer names as sender. -/
theorem deliversReceived_iff :
    Run (agentMachine g) anyStep h s ∧ DeliversReceived h ↔
      Run (agentMachine g) failsUnheard h s := by
  constructor
  · rintro ⟨hrun, hd⟩
    exact run_of_silent hrun hd.silent
  · intro hrun
    exact ⟨hrun.mono fun _ _ _ _ => trivial, run_delivers hrun⟩

/-- The list of users with `bob` in it and nobody else. -/
def bobOnly : UserList :=
  Table.append Table.empty 1 ((User.fresh 1 5).login (lit "bob") 3) (List.not_mem_nil)

/-- One text is received, then the queue is closed: `bob` gets the text again with every failing
receive. -/
theorem delivers_again :
    ∃ h s, Run (agentMachine ⟨none, .zero⟩) anyStep h s ∧
      receivedMessages h = [(Frame.text 2 (lit "hi")).msg] ∧
      messagesTo h 1 = List.replicate 3 (Frame.text 2 (lit "hi")).msg ∧ ¬ DeliversReceived h := by
  obtain ⟨h, s, hrun, hP⟩ := Run.exists_of_replay
    (M := agentMachine ⟨none, .zero⟩) (G := anyStep)
    [.receive (Frame.text 2 (lit "hi")).msg bobOnly, .receiveFails bobOnly, .receiveFails bobOnly]
    (fun h _ => decide (receivedMessages h = [(Frame.text 2 (lit "hi")).msg]) &&
      decide (messagesTo h 1 = List.replicate 3 (Frame.text 2 (lit "hi")).msg) &&
      h.any fun e => e.1 == .receiveFails bobOnly && e.2 != []) (by decide +kernel)
  rw [Bool.and_eq_true, Bool.and_eq_true, decide_eq_true_eq, decide_eq_true_eq,
    List.any_eq_true] at hP
  obtain ⟨⟨hreceived, hsent⟩, ⟨a, out⟩, he, hP⟩ := hP
  rw [Bool.and_eq_true, beq_iff_eq, bne_iff_ne] at hP
  refine ⟨h, s, hrun, hreceived, hsent, fun hd => ?_⟩
  exact hP.2 (hd.silent bobOnly out (hP.1 ▸ he))

end LinuxChat
