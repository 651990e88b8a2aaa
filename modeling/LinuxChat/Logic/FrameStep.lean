import LinuxChat.Logic.FrameSpec

/-!
# What a step does

Said once for every later invariant: what one step of the sequential server
does to an entry (`frameStep_entry`), and which steps answer a login request
with `LR_success` (`answeredSuccess_iff`). `lastLogin` reads the latest such
request of a client off the history, and `run_entry` is the induction by which
an entry and its latest login keep any relation that logins establish.
-/

namespace LinuxChat

open CMem ByteStream Trace

variable {cfg : Config} {sv sv' : Server} {r : Handled}

/-- A login request that passes every check: those of `network_Receive` and those of the
name. -/
def AcceptedLogin (l : UserList) (f : Frame) (env : Env) : Prop :=
  f.code = .receivedLogin ∧ loginResponse l (loginMem env f.msg f.announced) = .success

instance (l : UserList) (f : Frame) (env : Env) : Decidable (AcceptedLogin l f env) :=
  inferInstanceAs (Decidable (_ ∧ _))

theorem isNameFree_of_success {l : UserList} {name : List UInt8}
    (h : loginResponse l name = .success) : l.isNameFree name = true := by
  by_contra hno
  simp only [loginResponse, hno] at h
  split at h <;> cases h

/-- The entry after an accepted login. -/
def loggedInAs (u : User) (f : Frame) (env : Env) : User :=
  u.login (loginMem env f.msg f.announced) (loginSize f.announced)

/-! ## Entries -/

theorem handleCommand_users (env : Env) (u : User) (sv : Server) (m : CombinedMessage) :
    (handleCommand cfg env u sv m).server.users = sv.users ∨
      ∃ q fd, (handleCommand cfg env u sv m).server.users = sv.users.userShouldShutdown q ∧
        .kick q fd ∈ (handleCommand cfg env u sv m).out := by
  unfold handleCommand
  split
  · split
    · unfold handleKick
      split
      · exact .inr ⟨_, _, rfl, List.mem_singleton_self _⟩
      · exact .inl rfl
    · unfold handlePause; split <;> exact .inl rfl
    · unfold handleResume; split <;> exact .inl rfl
    all_goals exact .inl rfl
  · exact .inl rfl

theorem handleFrame_login (env : Env) (p : UserPtr) (u : User) (sv : Server) (f : Frame) :
    handleFrame cfg env p u sv .receivedLogin f.msg =
      if loginResponse sv.users (loginMem env f.msg f.announced) = .success then
        loginAccepted cfg env p u sv f.msg f.announced
      else
        { server := sv
          msg := .zero
          out := [.reply u.sock
            (buildLoginResponse cfg (loginResponse sv.users (loginMem env f.msg f.announced)))]
          accesses := loginNameAccesses env sv.users f.msg f.announced ++
            loginAnswerAccesses cfg
              (loginResponse sv.users (loginMem env f.msg f.announced)) } := rfl

/-- A frame changes the list by a login, by a flag on its own entry or on a kicked one, or not
at all. -/
theorem handleFrame_users (env : Env) (p : UserPtr) (u : User) (sv : Server) (f : Frame) :
    (AcceptedLogin sv.users f env ∧
      (handleFrame cfg env p u sv f.code f.msg).server.users =
        sv.users.modify p fun u => loggedInAs u f env) ∨
    (¬ AcceptedLogin sv.users f env ∧
      ((handleFrame cfg env p u sv f.code f.msg).server.users = sv.users ∨
        ∃ q, (handleFrame cfg env p u sv f.code f.msg).server.users = sv.users.modify q User.flag ∧
        (q = p ∨ ∃ fd, .kick q fd ∈ (handleFrame cfg env p u sv f.code f.msg).out))) := by
  by_cases hacc : AcceptedLogin sv.users f env
  · refine .inl ⟨hacc, ?_⟩
    obtain ⟨hcode, hresp⟩ := hacc
    rw [hcode, handleFrame_login, if_pos hresp]
    rfl
  · refine .inr ⟨hacc, ?_⟩
    cases hcode : f.code with
    | receivedLogin =>
        have hresp : ¬ loginResponse sv.users (loginMem env f.msg f.announced) = .success :=
          fun hresp => hacc ⟨hcode, hresp⟩
        rw [handleFrame_login, if_neg hresp]
        exact .inl rfl
    | receivedMessage => exact .inl rfl
    | receivedServerCommand =>
        rcases @handleCommand_users cfg env u sv f.msg with hsame | ⟨q, fd, hflag, hkick⟩
        · exact .inl hsame
        · exact .inr ⟨q, hflag, .inr ⟨fd, hkick⟩⟩
    | zero => exact .inl rfl
    | invalidLength => exact .inr ⟨p, rfl, .inl rfl⟩
    | magicNumInvalid => exact .inr ⟨p, rfl, .inl rfl⟩
    | versionInvalid => exact .inr ⟨p, rfl, .inl rfl⟩
    | nameLengthInvalid => exact .inr ⟨p, rfl, .inl rfl⟩

theorem frameStep_frame {p : UserPtr} {f : Frame} {env : Env}
    (h : frameStep cfg sv (.frame p f env) = some (sv', r)) :
    ∃ u, sv.users.get? p = some u ∧ r = clientPass cfg env p u sv f.received ∧ sv' = r.server := by
  simp only [frameStep] at h
  cases hu : sv.users.get? p with
  | none => simp [hu] at h
  | some u =>
      simp only [hu, Option.some.injEq, Prod.mk.injEq] at h
      exact ⟨u, rfl, h.2.symm, by rw [← h.1, h.2]⟩

/-- The messages of a pass are those of the switch. -/
theorem mem_out_frame {env : Env} {p : UserPtr} {u : User} {f : Frame} {x : Output}
    (hx : x ∈ (clientPass cfg env p u sv f.received).out) :
    x = .recv u.sock ∨ x = .read u.sock ∨ x ∈ (handleFrame cfg env p u sv f.code f.msg).out := by
  rw [f.received_eq] at hx
  simp only [clientPass, List.mem_cons, List.mem_append, List.mem_ite_nil_right,
    List.not_mem_nil, or_false] at hx
  rcases hx with (rfl | ⟨-, rfl⟩) | hx
  · exact .inl rfl
  · exact .inr (.inl rfl)
  · exact .inr (.inr hx)

/-- What a pass for the entry `u` does to the outside with the frame `f`. -/
inductive PassOut (cfg : Config) (env : Env) (u : User) (sv : Server) (f : Frame) : Output → Prop
  | recv : PassOut cfg env u sv f (.recv u.sock)
  | read : PassOut cfg env u sv f (.read u.sock)
  | reply (o) : PassOut cfg env u sv f (.reply u.sock o)
  | registerLog (name) : PassOut cfg env u sv f (.registerLog env.thread name)
  | login (hacc : AcceptedLogin sv.users f env) (sent) :
      PassOut cfg env u sv f (.enqueue (loginNotice env.now (loggedInAs u f env)) sent)
  | message (hcode : f.code = .receivedMessage) (sent) : PassOut cfg env u sv f
      (.enqueue (buildServerToClient f.msg env.now f.announced u.name.bytes u.nameLength) sent)
  | notify (hadmin : u.cname = cfg.adminName.bytes) (o) {e} (he : e ∈ sv.users.loggedInUsers) :
      PassOut cfg env u sv f (.notify e.2.sock o)
  | kick (hadmin : u.cname = cfg.adminName.bytes) {e}
      (he : kickTarget sv.users (kickName env f.msg) = some e) :
      PassOut cfg env u sv f (.kick e.1 e.2.sock)
  | pause (hadmin : u.cname = cfg.adminName.bytes) : PassOut cfg env u sv f .pause
  | resume (hadmin : u.cname = cfg.adminName.bytes) : PassOut cfg env u sv f .resume

theorem passOut_command {env : Env} {u : User} {f : Frame} {x : Output}
    (hx : x ∈ (handleCommand cfg env u sv f.msg).out) : PassOut cfg env u sv f x := by
  have hreply : ∀ text, x ∈ (replyOnly cfg env u sv f.msg text).out → PassOut cfg env u sv f x := by
    intro text hx
    rw [List.mem_singleton.mp hx]
    exact .reply _
  unfold handleCommand at hx
  split at hx
  · rename_i hadmin
    have hall : ∀ o, x ∈ notifyAll sv.users o → PassOut cfg env u sv f x := by
      intro o hx
      obtain ⟨e, he, rfl⟩ := List.mem_map.mp hx
      exact .notify hadmin o he
    split at hx
    · unfold handleKick at hx
      split at hx
      · rename_i hfound
        rw [List.mem_singleton.mp hx]
        exact .kick hadmin hfound
      · exact hreply _ hx
    · unfold handlePause at hx
      split at hx
      · exact hreply _ hx
      · rcases List.mem_cons.mp hx with rfl | hx
        · exact .pause hadmin
        · exact hall _ hx
    · unfold handleResume at hx
      split at hx
      · rcases List.mem_append.mp hx with hx | hx
        · exact hall _ hx
        · rw [List.mem_singleton.mp hx]
          exact .resume hadmin
      · exact hreply _ hx
    · obtain ⟨_, -, rfl⟩ := List.mem_map.mp hx
      exact .reply _
    all_goals exact hreply _ hx
  · exact hreply _ hx

/-- A pass reads from and replies to the socket of its entry, and speaks for it; what goes
elsewhere is a notice to the logged-in users or a `/kick`, and both are the administrator's. -/
theorem passOut_of_mem {env : Env} {p : UserPtr} {u : User} {f : Frame} {x : Output}
    (hx : x ∈ (clientPass cfg env p u sv f.received).out) : PassOut cfg env u sv f x := by
  rcases mem_out_frame hx with rfl | rfl | hx
  · exact .recv
  · exact .read
  cases hcode : f.code with
  | receivedLogin =>
      rw [hcode, handleFrame_login] at hx
      split at hx
      · rename_i hresp
        simp only [loginAccepted, List.mem_cons, List.mem_map] at hx
        rcases hx with rfl | rfl | rfl | ⟨_, -, rfl⟩
        · exact .reply _
        · exact .registerLog _
        · exact .login ⟨hcode, hresp⟩ _
        · exact .reply _
      · rw [List.mem_singleton.mp hx]
        exact .reply _
  | receivedMessage =>
      rw [hcode] at hx
      simp only [handleFrame, handleMessage, List.mem_cons] at hx
      rcases hx with rfl | hx
      · exact .message hcode _
      · split at hx
        · cases hx
        · rw [List.mem_singleton.mp hx]
          exact .reply _
  | receivedServerCommand =>
      rw [hcode] at hx
      exact passOut_command hx
  | _ =>
      rw [hcode] at hx
      cases hx

/-- A test that the two calls of a pass fail is decided by the switch. -/
theorem any_out_frame (env : Env) (p : UserPtr) (u : User) (sv : Server) (f : Frame)
    {c : Output → Bool} (hrecv : ∀ fd, c (.recv fd) = false) (hread : ∀ fd, c (.read fd) = false) :
    (clientPass cfg env p u sv f.received).out.any c =
      (handleFrame cfg env p u sv f.code f.msg).out.any c := by
  rw [f.received_eq]
  simp only [clientPass, List.any_cons, List.any_append, hrecv, Bool.false_or]
  split <;> simp [hread]

/-- What a test picks out of a pass, if the two calls fail it, comes from the switch. -/
theorem filter_out_frame (env : Env) (p : UserPtr) (u : User) (sv : Server) (f : Frame)
    {c : Output → Bool} (hrecv : ∀ fd, c (.recv fd) = false) (hread : ∀ fd, c (.read fd) = false) :
    (clientPass cfg env p u sv f.received).out.filter c =
      (handleFrame cfg env p u sv f.code f.msg).out.filter c := by
  have hcall : (if readsBody f.msg.header then [Output.read u.sock] else []).filter c = [] := by
    split <;> simp [hread]
  rw [f.received_eq]
  simp [clientPass, hrecv, hcall]

theorem frameStep_disconnect {p : UserPtr} {status : Int} {env : Env}
    (h : frameStep cfg sv (.disconnect p status env) = some (sv', r)) :
    ∃ u, sv.users.get? p = some u ∧ status ≤ 0 ∧
      r = clientTeardown env p u sv status .communicationError .zero ∧ sv' = r.server := by
  simp only [frameStep] at h
  cases hu : sv.users.get? p with
  | none => simp [hu] at h
  | some u =>
      simp only [hu] at h
      by_cases hs : 0 < status
      · simp [hs] at h
      · simp only [hs, if_false, Option.some.injEq, Prod.mk.injEq] at h
        exact ⟨u, rfl, by omega, h.2.symm, by rw [← h.1, h.2]⟩

theorem frameStep_connect {p : UserPtr} {thread sock : Nat}
    (h : frameStep cfg sv (.connect p thread sock) = some (sv', r)) :
    ∃ hp : p ∉ sv.users.keys,
      sv'.users = sv.users.append p (User.fresh thread sock) hp ∧
        sv.users.findUser sock = none ∧ r.out = [] := by
  simp only [frameStep] at h
  split at h
  · cases h
  · rename_i hp
    by_cases hs : (sv.users.findUser sock).isSome
    · simp [hs] at h
    · simp only [hs] at h
      obtain ⟨rfl, rfl⟩ := h
      refine ⟨hp, ?_, by simpa using hs, rfl⟩
      simp [UserList.createUser, hs]

theorem frameStep_deliver (h : frameStep cfg sv .deliver = some (sv', r)) :
    sv'.users = sv.users ∧ r.out = [] := by
  simp only [frameStep] at h
  split at h
  · cases h
  · split at h
    · cases h
    · simp only [Option.some.injEq, Prod.mk.injEq] at h
      obtain ⟨rfl, rfl⟩ := h
      exact ⟨rfl, rfl⟩

/-- Where an entry after a step comes from. -/
inductive EntryStep (sv : Server) (ev : FrameEvent) (q : UserPtr) (u' : User) : Prop
  | created (thread sock : Nat) : ev = .connect q thread sock → u' = User.fresh thread sock →
      EntryStep sv ev q u'
  | login (u : User) (f : Frame) (env : Env) : sv.users.get? q = some u → ev = .frame q f env →
      AcceptedLogin sv.users f env → u' = loggedInAs u f env → EntryStep sv ev q u'
  | logout (u : User) (status : Int) (env : Env) : sv.users.get? q = some u →
      ev = .disconnect q status env → u' = u.logout → EntryStep sv ev q u'
  | kept (u : User) : sv.users.get? q = some u → (u' = u ∨ u' = u.flag) →
      (∀ thread sock, ev ≠ .connect q thread sock) →
      (∀ f env, ev = .frame q f env → ¬ AcceptedLogin sv.users f env) →
      (∀ status env, ev ≠ .disconnect q status env) → EntryStep sv ev q u'

/-- Every entry is new, has logged in, has logged out, or is the old one up to its
shutdown flag. -/
theorem frameStep_entry {ev : FrameEvent} (h : frameStep cfg sv ev = some (sv', r))
    {q : UserPtr} {u' : User} (hq : sv'.users.get? q = some u') : EntryStep sv ev q u' := by
  cases ev with
  | connect p thread sock =>
      obtain ⟨hp, husers, -, -⟩ := frameStep_connect h
      rw [husers, Table.get?_append] at hq
      by_cases hqp : q = p
      · rw [if_pos hqp, Option.some.injEq] at hq
        exact .created thread sock (by rw [hqp]) hq.symm
      · rw [if_neg hqp] at hq
        exact .kept u' hq (.inl rfl) (by rintro _ _ ⟨⟩; exact hqp rfl) (by rintro _ _ ⟨⟩)
          (by rintro _ _ ⟨⟩)
  | frame p f env =>
      obtain ⟨u, hu, rfl, rfl⟩ := frameStep_frame h
      rw [f.received_eq] at hq
      have husers : (clientPass cfg env p u sv (.frame 3 f.code f.msg f.count)).server.users
          = (handleFrame cfg env p u sv f.code f.msg).server.users := rfl
      rw [husers] at hq
      rcases handleFrame_users env p u sv f with ⟨hacc, hmod⟩ | ⟨hno, hsame | ⟨t, hflag, -⟩⟩
      · rw [hmod] at hq
        obtain ⟨v, hv, rfl⟩ := Table.exists_of_get?_modify hq
        by_cases hqp : q = p
        · subst hqp
          exact .login v f env hv rfl hacc (by rw [if_pos rfl])
        · exact .kept v hv (.inl (if_neg hqp)) (by rintro _ _ ⟨⟩)
            (by rintro _ _ ⟨⟩; exact absurd rfl hqp) (by rintro _ _ ⟨⟩)
      · rw [hsame] at hq
        exact .kept u' hq (.inl rfl) (by rintro _ _ ⟨⟩) (by rintro _ _ ⟨⟩; exact hno)
          (by rintro _ _ ⟨⟩)
      · rw [hflag] at hq
        obtain ⟨v, hv, rfl⟩ := Table.exists_of_get?_modify hq
        exact .kept v hv (by by_cases hqt : q = t <;> simp [hqt]) (by rintro _ _ ⟨⟩)
          (by rintro _ _ ⟨⟩; exact hno) (by rintro _ _ ⟨⟩)
  | disconnect p status env =>
      obtain ⟨u, hu, -, rfl, rfl⟩ := frameStep_disconnect h
      have hlogout : (sv.users.logoutUser p).get? q = some u' := by
        simp only [clientTeardown, UserList.removeUser] at hq
        split at hq
        · exact hq
        · rw [Table.get?_erase] at hq
          split at hq
          · cases hq
          · exact hq
      obtain ⟨v, hv, rfl⟩ := Table.exists_of_get?_modify hlogout
      by_cases hqp : q = p
      · subst hqp
        exact .logout v status env hv rfl (if_pos rfl)
      · exact .kept v hv (.inl (if_neg hqp)) (by rintro _ _ ⟨⟩) (by rintro _ _ ⟨⟩)
          (by rintro _ _ ⟨⟩; exact hqp rfl)
  | deliver =>
      rw [(frameStep_deliver h).1] at hq
      exact .kept u' hq (.inl rfl) (by rintro _ _ ⟨⟩) (by rintro _ _ ⟨⟩) (by rintro _ _ ⟨⟩)

/-- Sockets stay pairwise distinct: `create_User` refuses one that is in use. -/
theorem frameStep_sockUnique {ev : FrameEvent} (hsv : UserList.SockUnique sv.users)
    (h : frameStep cfg sv ev = some (sv', r)) : UserList.SockUnique sv'.users := by
  have hold : ∀ q u', EntryStep sv ev q u' → (∃ thread, ev = .connect q thread u'.sock) ∨
      ∃ u, sv.users.get? q = some u ∧ u.sock = u'.sock := by
    rintro q u' (⟨thread, sock, rfl, rfl⟩ | ⟨u, f, env, hu, -, -, rfl⟩ | ⟨u, _, _, hu, -, rfl⟩ |
      ⟨u, hu, rfl | rfl, -, -, -⟩)
    · exact .inl ⟨thread, rfl⟩
    all_goals exact .inr ⟨_, hu, rfl⟩
  have hfresh : ∀ p thread sock, ev = .connect p thread sock →
      ∀ q u, sv.users.get? q = some u → u.sock ≠ sock := by
    rintro p thread sock rfl
    obtain ⟨-, -, hnone, -⟩ := frameStep_connect h
    exact UserList.findUser_eq_none.mp hnone
  intro p q u v hu hv hsock
  rcases hold p u (frameStep_entry h hu) with ⟨tp, hp⟩ | ⟨u₀, hu₀, hus⟩ <;>
    rcases hold q v (frameStep_entry h hv) with ⟨tq, hq⟩ | ⟨v₀, hv₀, hvs⟩
  · rw [hp, FrameEvent.connect.injEq] at hq
    exact hq.1
  · exact absurd (hvs.trans hsock.symm) (hfresh _ _ _ hp q v₀ hv₀)
  · exact absurd (hus.trans hsock) (hfresh _ _ _ hq p u₀ hu₀)
  · exact hsv p q u₀ v₀ hu₀ hv₀ (by rw [hus, hsock, hvs])

/-- A teardown removes its own entry. -/
theorem users_teardown {env : Env} {p : UserPtr} {u : User} {status : Int}
    {reason : ClientDisconnectCode} {m : CombinedMessage} (hsv : UserList.SockUnique sv.users)
    (hu : sv.users.get? p = some u) :
    (clientTeardown env p u sv status reason m).server.users =
      (sv.users.modify p User.logout).erase p := by
  have hself : (sv.users.modify p User.logout).get? p = some u.logout := by simp [hu]
  have hrm := UserList.removeUser_of_sockUnique (hsv.modify (f := User.logout) (fun _ => rfl) p)
    hself
  exact congrArg Prod.snd hrm

/-- A session that ends leaves the other entries alone. -/
theorem get?_disconnect_of_ne (hsv : UserList.SockUnique sv.users) {p q : UserPtr} {status : Int}
    {env : Env} (h : frameStep cfg sv (.disconnect p status env) = some (sv', r)) (hq : q ≠ p) :
    sv'.users.get? q = sv.users.get? q := by
  obtain ⟨u, hu, -, rfl, rfl⟩ := frameStep_disconnect h
  rw [users_teardown hsv hu, Table.get?_erase, if_neg hq, Table.get?_modify_of_ne hq]

/-- And takes its own entry with it. -/
theorem get?_disconnect (hsv : UserList.SockUnique sv.users) {p : UserPtr} {status : Int}
    {env : Env}
    (h : frameStep cfg sv (.disconnect p status env) = some (sv', r)) :
    sv'.users.get? p = none := by
  obtain ⟨u, hu, -, rfl, rfl⟩ := frameStep_disconnect h
  rw [users_teardown hsv hu, Table.get?_erase, if_pos rfl]

/-! ## Answers to login requests -/

/-- A `LoginResponse` with the code `LR_success`. -/
def isLoginSuccess : Output → Bool
  | .reply _ o =>
      o.builder == .loginResponse && o.msg.body.slice 4 1 == [LoginResponseCode.success.code]
  | _ => false

/-- A login request was answered with `LR_success`. -/
def answeredSuccess (r : Handled) : Bool := r.out.any isLoginSuccess

theorem slice_code_loginResponse (code : LoginResponseCode) :
    (buildLoginResponse cfg code).msg.body.slice 4 1 = [code.code] := by
  simp only [buildLoginResponse]
  rw [Buf.slice_write_of_le (by omega) (by decide)]
  exact @Buf.slice_write _ _ 4 [code.code] (by simp [bodySize])

theorem isLoginSuccess_reply (fd : Nat) (code : LoginResponseCode) :
    isLoginSuccess (.reply fd (buildLoginResponse cfg code)) = true ↔ code = .success := by
  simp only [isLoginSuccess, slice_code_loginResponse]
  cases code <;> simp [buildLoginResponse, LoginResponseCode.code]

theorem not_answered_command (env : Env) (u : User) (sv : Server) (m : CombinedMessage) :
    answeredSuccess (handleCommand cfg env u sv m) = false := by
  have hreply : ∀ text, answeredSuccess (replyOnly cfg env u sv m text) = false := fun _ => rfl
  have hall : ∀ o, (notifyAll sv.users o).any isLoginSuccess = false := by
    intro o
    simp [notifyAll, isLoginSuccess]
  unfold handleCommand
  split
  · split
    · unfold handleKick
      split <;> rfl
    · unfold handlePause
      split
      · rfl
      · simp [answeredSuccess, hall, isLoginSuccess]
    · unfold handleResume
      split
      · simp [answeredSuccess, hall, isLoginSuccess]
      · rfl
    · simp [answeredSuccess, handleHelp, isLoginSuccess, buildServerResponseSpecial]
    all_goals exact hreply _
  · exact hreply _

/-- `LR_success` answers exactly the accepted login requests. -/
theorem answeredSuccess_iff {p : UserPtr} {f : Frame} {env : Env}
    (h : frameStep cfg sv (.frame p f env) = some (sv', r)) :
    answeredSuccess r = true ↔ AcceptedLogin sv.users f env := by
  obtain ⟨u, -, rfl, -⟩ := frameStep_frame h
  rw [answeredSuccess, any_out_frame env p u sv f (fun _ => rfl) (fun _ => rfl)]
  unfold AcceptedLogin
  cases hcode : f.code with
  | receivedLogin =>
      rw [handleFrame_login]
      split
      · rename_i hresp
        simp [loginAccepted, isLoginSuccess_reply, hresp]
      · rename_i hresp
        simp [isLoginSuccess_reply, hresp]
  | receivedServerCommand =>
      simpa [handleFrame, answeredSuccess] using not_answered_command env u sv f.msg
  | receivedMessage =>
      simp only [handleFrame, handleMessage]
      split <;> simp [isLoginSuccess, buildServerResponse]
  | _ => simp [handleFrame]

/-! ## The latest login of a client -/

/-- What an event makes of the latest accepted login request of `p`. -/
def loginUpdate (p : UserPtr) (acc : Option (List UInt8)) : FrameEvent × Handled →
    Option (List UInt8)
  | (.connect q _ _, _) => if q = p then none else acc
  | (.disconnect q _ _, _) => if q = p then none else acc
  | (.frame q f _, r) => if q = p ∧ answeredSuccess r = true then some f.name else acc
  | (.deliver, _) => acc

/-- The name bytes of the most recent login request of the present session of `p` that was
answered with `LR_success`. -/
def lastLogin (h : History FrameEvent Handled) (p : UserPtr) : Option (List UInt8) :=
  h.foldl (loginUpdate p) none

@[simp] theorem lastLogin_nil (p : UserPtr) : lastLogin [] p = none := rfl

@[simp] theorem lastLogin_snoc (h : History FrameEvent Handled) (e : FrameEvent × Handled)
    (p : UserPtr) : lastLogin (h ++ [e]) p = loginUpdate p (lastLogin h p) e := by
  simp [lastLogin, List.foldl_append]

/-- An entry that is kept keeps its latest login. -/
theorem loginUpdate_kept {ev : FrameEvent} (h : frameStep cfg sv ev = some (sv', r)) {p : UserPtr}
    (hconnect : ∀ thread sock, ev ≠ .connect p thread sock)
    (hframe : ∀ f env, ev = .frame p f env → ¬ AcceptedLogin sv.users f env)
    (hdisconnect : ∀ status env, ev ≠ .disconnect p status env) (acc : Option (List UInt8)) :
    loginUpdate p acc (ev, r) = acc := by
  cases ev with
  | connect q thread sock => exact if_neg fun hq => hconnect thread sock (by rw [hq])
  | disconnect q status env => exact if_neg fun hq => hdisconnect status env (by rw [hq])
  | frame q f env =>
      refine if_neg fun hq => ?_
      exact hframe f env (by rw [hq.1]) ((answeredSuccess_iff h).mp hq.2)
  | deliver => rfl

/-- What holds of a new entry, is established by every allowed login and survives the
shutdown flag, holds of every entry and its latest login along every run. -/
theorem run_entry {G : Guard Server FrameEvent Handled} {P : Option (List UInt8) → User → Prop}
    (hfresh : ∀ thread sock, P none (User.fresh thread sock))
    (hlogin : ∀ {h sv p u f env}, G h sv (.frame p f env) → sv.users.get? p = some u →
      AcceptedLogin sv.users f env → P (lastLogin h p) u → P (some f.name) (loggedInAs u f env))
    (hflag : ∀ {a u}, P a u → P a u.flag) {h : History FrameEvent Handled}
    (hrun : Run (frameMachine cfg) G h sv) {p : UserPtr} {u : User}
    (hu : sv.users.get? p = some u) : P (lastLogin h p) u := by
  refine (hrun.invariant (I := fun h sv => UserList.SockUnique sv.users ∧
    ∀ p u, sv.users.get? p = some u → P (lastLogin h p) u) ⟨?_, ?_⟩ ?_).2 p u hu
  · intro p q u v hu
    simp [frameMachine, Server.init] at hu
  · intro p u hu
    simp [frameMachine, Server.init] at hu
  · rintro h sv ev sv' r ⟨hsock, hinv⟩ hg hstep
    replace hstep : frameStep cfg sv ev = some (sv', r) := hstep
    refine ⟨frameStep_sockUnique hsock hstep, fun p u' hu' => ?_⟩
    rw [lastLogin_snoc]
    cases frameStep_entry hstep hu' with
    | created thread sock hev hnew =>
        rw [hnew, hev, loginUpdate, if_pos rfl]
        exact hfresh thread sock
    | login u f env hu hev hacc hnew =>
        subst hev
        rw [hnew, loginUpdate, if_pos ⟨rfl, (answeredSuccess_iff hstep).mpr hacc⟩]
        exact hlogin hg hu hacc (hinv p u hu)
    | logout u status env _ hev _ =>
        subst hev
        -- The entry goes with its session.
        have hgone : sv'.users.get? p = none := get?_disconnect hsock hstep
        rw [hgone] at hu'
        cases hu'
    | kept u hu hsame hconnect hframe hdisconnect =>
        -- Neither a start, nor a login, nor an end of this session.
        rw [loginUpdate_kept hstep hconnect hframe hdisconnect]
        rcases hsame with rfl | rfl
        · exact hinv p u' hu
        · exact hflag (hinv p u hu)

end LinuxChat
