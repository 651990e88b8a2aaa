import LinuxChat.Logic.ChatStep

/-!
# Passes with nothing in between

The steps of `Chat` are the pieces of a pass. Taken one directly after the
other by one thread, they do to the users and to the queue what the pass does
in one piece, and send what it sends.
-/

namespace LinuxChat

open CMem Trace

/-- What a pass sees of the state. -/
def Chat.server (s : Chat) : Server := ⟨s.users, s.bus.queue, s.bus.paused⟩

/-- A pass's effect on the state: users, queue, and the messages to its own client. -/
def Chat.put (s : Chat) (p : UserPtr) (sv : Server) (sent : List CombinedMessage) : Chat :=
  { s with
    users := sv.users
    bus := { s.bus with queue := sv.queue, curmsgs := s.bus.queue.length }
    inbox := Function.update s.inbox p (s.inbox p ++ sent) }

/-- The steps of `broadcast_message` behind `mq_getattr`. -/
def messageActs (queue : List QueueMessage) (p : UserPtr) : List ChatAct :=
  .bus (.test p) :: if queue.length < mqMaxmsg then [.bus (.send p)] else []

/-- `broadcast_message` behind `mq_getattr`: refused or sent as the queue is full or not. -/
theorem after_messageActs {s : Chat} {p : UserPtr} {m : CombinedMessage}
    (hcall : s.bus.callers p = some (.testing, ⟨none, m⟩))
    (hcount : s.bus.curmsgs = s.bus.queue.length) (rest : List ChatAct) :
    chatMachine.after s (messageActs s.bus.queue p ++ rest) = chatMachine.after { s with
      bus := { s.bus with
        queue := (broadcastMessage s.bus.queue m none).2
        callers := Function.update s.bus.callers p none } } rest := by
  by_cases hroom : s.bus.queue.length < mqMaxmsg
  · have htest : chatMachine.step s (.bus (.test p)) = some ({ s with
        bus := { s.bus with
          callers := Function.update s.bus.callers p (some (.sending, ⟨none, m⟩)) } }, ()) := by
      simp only [chatMachine, chatStep, broadcastStep, hcall, hcount, if_pos hroom,
        Option.map_some, deliverTo]
    simp only [messageActs, if_pos hroom, List.cons_append, List.nil_append]
    rw [Machine.after_cons htest, Machine.after_cons (o := ())]
    simp only [chatMachine, chatStep, broadcastStep, Function.update_self, if_pos hroom,
      Option.map_some, deliverTo, Function.update_idem, broadcastMessage]
  · simp only [messageActs, if_neg hroom, List.cons_append, List.nil_append]
    rw [Machine.after_cons (o := ())]
    simp only [chatMachine, chatStep, broadcastStep, hcall, hcount, if_neg hroom,
      Option.map_some, deliverTo, broadcastMessage]

/-- What an accepted login does to the state. -/
theorem clientPass_login {cfg : Config} {env : Env} {p : UserPtr} {u : User} {sv : Server}
    {f : Frame} (hacc : AcceptedLogin sv.users f env) :
    (clientPass cfg env p u sv f.received).server = { sv with
      users := sv.users.loginUser p (loginMem env f.msg f.announced) (loginSize f.announced)
      queue := (broadcastMessage sv.queue (loginNotice env.now (loggedInAs u f env)).msg
        none).2 } := by
  rw [f.received_eq]
  simp only [clientPass, hacc.1, handleFrame_login, if_pos hacc.2]
  rfl

/-- A login, uninterrupted, is the pass. -/
theorem login_uninterrupted {s : Chat} {p : UserPtr} {u : User} (hu : s.users.get? p = some u)
    (hidle : s.Idle p) {f : Frame} {env : Env} (hacc : AcceptedLogin s.users f env)
    (cfg : Config) :
    chatMachine.after s (.scan p f env :: .write p :: .announce p env.now ::
        (messageActs s.bus.queue p ++ [.snapshot p env.now])) =
      some (s.put p (clientPass cfg env p u s.server f.received).server
        ((snapshot env.now (clientPass cfg env p u s.server f.received).server.users p).map
          (·.msg))) := by
  have hkey : s.Idle p ∧ p ∈ s.users.keys := ⟨hidle, Table.mem_keys_iff.mpr ⟨u, hu⟩⟩
  have hname : loginResponse s.users (loginMem env f.msg f.msg.header.length.toNat) = .success :=
    hacc.2
  have hpass : AcceptedLogin s.server.users f env := hacc
  have hnew : (s.users.loginUser p (loginMem env f.msg f.announced)
      (loginSize f.announced)).get? p = some (loggedInAs u f env) := by
    rw [UserList.loginUser, Table.get?_modify_self, hu]
    rfl
  have hphase : Function.update s.phase p .idle = s.phase := by
    rw [← hidle.1, Function.update_eq_self]
  have hcall : Function.update s.bus.callers p none = s.bus.callers := by
    rw [← hidle.2, Function.update_eq_self]
  -- The four steps of the thread; `broadcast_message` comes between the last two.
  have hscan : chatMachine.step s (.scan p f env) = some ({ s with
      phase := Function.update s.phase p
        (.checked (loginMem env f.msg f.announced) (loginSize f.announced)) }, ()) := by
    simp only [chatMachine, chatStep, f.received_eq, hacc.1, if_pos hkey, if_pos hname]
    rfl
  have hwrite : chatMachine.step { s with
      phase := Function.update s.phase p
        (.checked (loginMem env f.msg f.announced) (loginSize f.announced)) } (.write p) =
      some ({ s with
        users := s.users.loginUser p (loginMem env f.msg f.announced) (loginSize f.announced)
        phase := Function.update s.phase p .written }, ()) := by
    simp only [chatMachine, chatStep, Function.update_self, Function.update_idem]
  have hannounce : chatMachine.step { s with
      users := s.users.loginUser p (loginMem env f.msg f.announced) (loginSize f.announced)
      phase := Function.update s.phase p .written } (.announce p env.now) =
      some ({ s with
        users := s.users.loginUser p (loginMem env f.msg f.announced) (loginSize f.announced)
        phase := Function.update s.phase p .announcing
        bus := { s.bus with
          curmsgs := s.bus.queue.length
          callers := Function.update s.bus.callers p
            (some (.testing, ⟨none, (loginNotice env.now (loggedInAs u f env)).msg⟩)) } },
        ()) := by
    simp only [chatMachine, chatStep, Function.update_self, hnew, broadcastStep, hidle.2,
      Option.map_some, Function.update_idem]
  rw [clientPass_login hpass, Machine.after_cons hscan, Machine.after_cons hwrite,
    Machine.after_cons hannounce, after_messageActs (Function.update_self ..) rfl]
  simp only [Machine.after, chatMachine, chatStep, Function.update_self, Function.update_idem,
    hphase, hcall, hidle.2, Option.bind_some, Chat.put, Chat.server]

/-- A text, uninterrupted, is the pass. -/
theorem say_uninterrupted {s : Chat} {p : UserPtr} {u : User} (hu : s.users.get? p = some u)
    (hidle : s.Idle p) {f : Frame} (hcode : f.code = .receivedMessage) (cfg : Config)
    (env : Env) :
    chatMachine.after s (.say p f env.now :: messageActs s.bus.queue p) =
      some (s.put p (clientPass cfg env p u s.server f.received).server []) := by
  have hcall : Function.update s.bus.callers p none = s.bus.callers := by
    rw [← hidle.2, Function.update_eq_self]
  have hinbox : Function.update s.inbox p (s.inbox p) = s.inbox := Function.update_eq_self ..
  have hserver : (clientPass cfg env p u s.server f.received).server = { s.server with
      queue := (broadcastMessage s.bus.queue (buildServerToClient f.msg env.now f.announced
        u.name.bytes u.nameLength).msg none).2 } := by
    rw [f.received_eq]
    simp only [clientPass, hcode, handleFrame, handleMessage]
    rfl
  rw [hserver, ← List.append_nil (messageActs s.bus.queue p)]
  rw [Machine.after_cons (o := ()) (by
    simp only [chatMachine, chatStep, hu, f.received_eq, hcode, if_pos hidle, broadcastStep,
      hidle.2, Option.map_some]; rfl)]
  rw [after_messageActs (Function.update_self ..) rfl]
  simp only [Machine.after, Function.update_idem, hcall, hinbox, Chat.put, Chat.server,
    List.append_nil]
  rfl

/-- A departure, uninterrupted, is what follows the loop. -/
theorem departure_uninterrupted {s : Chat} {p : UserPtr} {u : User}
    (hu : s.users.get? p = some u) (hidle : s.Idle p) (env : Env) (status : Int)
    (reason : ClientDisconnectCode) :
    chatMachine.after s
        [.logout p, .notify p (teardownReason status u reason) env.now, .remove p] =
      some { s with
        users := (clientTeardown env p u s.server status reason .zero).server.users
        inbox :=
          if u.nameLength ≠ 0 then
            Chat.sendAll s.inbox (s.users.logoutUser p) (fun q v => v.loggedIn && q ≠ p)
              (teardownNotice env.now .zero (teardownReason status u reason) u).msg
          else s.inbox } := by
  have hkey : s.Idle p ∧ p ∈ s.users.keys := ⟨hidle, Table.mem_keys_iff.mpr ⟨u, hu⟩⟩
  have hout : (s.users.logoutUser p).get? p = some u.logout := by
    rw [UserList.logoutUser, Table.get?_modify_self, hu]
    rfl
  have hphase : Function.update s.phase p .idle = s.phase := by
    rw [← hidle.1, Function.update_eq_self]
  rw [Machine.after_cons (o := ()) (by
    simp only [chatMachine, chatStep, if_pos hkey]; rfl)]
  rw [Machine.after_cons (o := ()) (by
    simp only [chatMachine, chatStep, Function.update_self, hout]; rfl)]
  rw [Machine.after_cons (o := ()) (by
    simp only [chatMachine, chatStep, Function.update_self, hout]; rfl)]
  simp only [Machine.after, Function.update_idem, hphase]
  rfl

end LinuxChat
