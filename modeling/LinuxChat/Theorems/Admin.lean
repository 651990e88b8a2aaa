import LinuxChat.Logic.FrameStep

/-!
# Only the administrator commands

The admin check compares the stored name with the admin name, and the stored
name is what all logins of the connection have left in one buffer. Where each
accepted login leaves exactly the name it asked for, the buffer is the latest
login (`NameHistory`) and the check asks for the admin; a shorter name over a
longer one leaves the tail of the old one behind and can spell the admin name.
-/

namespace LinuxChat

open CMem Trace

/-- The output is one by which `/kick`, `/pause`, `/resume` or `/help` takes effect. -/
def isCommandEffect : Output → Bool
  | .kick .. => true
  | .pause => true
  | .resume => true
  | .reply _ o => o.builder == .serverResponseSpecial
  | _ => false

/-- A command took effect in this step. -/
def commandEffect (r : Handled) : Bool := r.out.any isCommandEffect

/-- A frame of `p` has changed the pause, or the entry of another connection. -/
def ChangesOthers (p : UserPtr) (sv sv' : Server) : Prop :=
  sv'.broadcastPaused ≠ sv.broadcastPaused ∨ ∃ q, q ≠ p ∧ sv'.users.get? q ≠ sv.users.get? q

/-- An accepted login leaves its own name in the buffer: it fits into `login_name`, holds
no NUL, and ends in the padding or in front of a NUL of the old name. -/
def StoresWholeName (u : User) (f : Frame) : Prop :=
  f.announced ≤ 36 ∧ 0 ∉ f.name ∧
    (f.name.length < f.announced - 5 ∨ cstr (u.name.bytes.drop (f.announced - 5)) = [])

instance (u : User) (f : Frame) : Decidable (StoresWholeName u f) :=
  inferInstanceAs (Decidable (_ ∧ _ ∧ (_ ∨ _)))

/-- Every accepted login stores its whole name. -/
def wholeNames : Guard Server FrameEvent Handled := fun _ sv ev =>
  match ev with
  | .frame p f env => ∀ u ∈ sv.users.get? p, AcceptedLogin sv.users f env → StoresWholeName u f
  | _ => True

instance (h : History FrameEvent Handled) (sv : Server) : (ev : FrameEvent) →
    Decidable (wholeNames h sv ev)
  | .connect .. => isTrue trivial
  | .frame p f env => inferInstanceAs (Decidable
      (∀ u ∈ sv.users.get? p, AcceptedLogin sv.users f env → StoresWholeName u f))
  | .disconnect .. => isTrue trivial
  | .deliver => isTrue trivial

/-- Such a login stores the name it carries. -/
theorem cname_loggedInAs {u : User} {f : Frame} {env : Env} (hcode : f.code = .receivedLogin)
    (hwhole : StoresWholeName u f) : (loggedInAs u f env).cname = f.name := by
  obtain ⟨hfit, hnul, htail⟩ := hwhole
  have hsize : loginSize f.announced = f.announced - 5 := Frame.loginSize_eq hcode
  have hcopy := Frame.cstr_take_loginMem hcode hfit env
  rw [cstr_eq_self hnul] at hcopy
  rw [loggedInAs, User.cname_login, hcopy]
  · rw [hsize]; unfold netNameLenPlus; omega
  · rw [hcopy, hsize]
    exact htail

/-- A stored name is that of the latest login, and its client is logged in. -/
def NameHistory (last : Option (List UInt8)) (u : User) : Prop :=
  u.cname ≠ [] → u.loggedIn = true ∧ last = some u.cname

theorem run_nameHistory {cfg : Config} {h : History FrameEvent Handled} {sv : Server}
    (hrun : Run (frameMachine cfg) wholeNames h sv) {p : UserPtr} {u : User}
    (hu : sv.users.get? p = some u) : NameHistory (lastLogin h p) u := by
  refine run_entry (P := NameHistory) ?_ ?_ ?_ hrun hu
  · intro thread sock hname
    exact absurd (User.cname_fresh thread sock) hname
  · intro h sv p u f env hg hu hacc _ _
    exact ⟨rfl, by rw [cname_loggedInAs hacc.1 (hg u hu hacc)]⟩
  · exact fun hu hname => hu hname

variable {cfg : Config}

/-- A command takes effect only behind the admin check. -/
theorem admin_of_commandEffect {env : Env} {p : UserPtr} {u : User} {sv : Server}
    {f : Frame} (heff : commandEffect (clientPass cfg env p u sv f.received) = true) :
    u.cname = cfg.adminName.bytes := by
  rw [commandEffect, any_out_frame env p u sv f (fun _ => rfl) (fun _ => rfl)] at heff
  cases hcode : f.code with
  | receivedServerCommand =>
      rw [hcode] at heff
      simp only [handleFrame, handleCommand] at heff
      -- A client that is not the admin gets one refusal.
      by_contra hne
      rw [if_neg hne] at heff
      simp [replyOnly, isCommandEffect, buildServerResponse] at heff
  | receivedLogin =>
      rw [hcode, handleFrame_login] at heff
      split at heff <;>
        simp [loginAccepted, isCommandEffect, buildLoginResponse, snapshot,
          buildUserAdded] at heff
  | receivedMessage =>
      rw [hcode] at heff
      simp only [handleFrame, handleMessage] at heff
      split at heff <;> simp [isCommandEffect, buildServerResponse] at heff
  | _ =>
      rw [hcode] at heff
      simp [handleFrame] at heff

/-- The pause changes with the labels of `/pause` and `/resume`. -/
theorem paused_command (env : Env) (u : User) (sv : Server) (m : CombinedMessage) :
    (handleCommand cfg env u sv m).server.broadcastPaused = sv.broadcastPaused ∨
      .pause ∈ (handleCommand cfg env u sv m).out ∨
      .resume ∈ (handleCommand cfg env u sv m).out := by
  unfold handleCommand
  split
  · split
    · left
      unfold handleKick
      split <;> rfl
    · unfold handlePause
      split
      · exact .inl rfl
      · exact .inr (.inl List.mem_cons_self)
    · unfold handleResume
      split
      · exact .inr (.inr (List.mem_append_right _ (List.mem_singleton_self _)))
      · exact .inl rfl
    · exact .inl rfl
    all_goals exact .inl rfl
  · exact .inl rfl

/-- What a frame changes beyond its own entry carries the label of a command. -/
theorem commandEffect_of_change {env : Env} {p : UserPtr} {u : User} {sv : Server} {f : Frame}
    (hchange : ChangesOthers p sv (clientPass cfg env p u sv f.received).server) :
    commandEffect (clientPass cfg env p u sv f.received) = true := by
  have hserver : (clientPass cfg env p u sv f.received).server =
      (handleFrame cfg env p u sv f.code f.msg).server := by rw [f.received_eq]; rfl
  have heffect : ∀ x ∈ (handleFrame cfg env p u sv f.code f.msg).out, isCommandEffect x = true →
      commandEffect (clientPass cfg env p u sv f.received) = true := by
    intro x hx hcommand
    rw [commandEffect, any_out_frame env p u sv f (fun _ => rfl) (fun _ => rfl)]
    exact List.any_eq_true.mpr ⟨x, hx, hcommand⟩
  rw [hserver] at hchange
  rcases hchange with hpaused | ⟨q, hq, hentry⟩
  · cases hcode : f.code with
    | receivedServerCommand =>
        rw [hcode] at hpaused heffect
        rcases @paused_command cfg env u sv f.msg with hsame | hpause | hresume
        · exact absurd hsame hpaused
        · exact heffect _ hpause rfl
        · exact heffect _ hresume rfl
    | receivedLogin =>
        rw [hcode, handleFrame_login] at hpaused
        split at hpaused <;> exact absurd rfl hpaused
    | _ =>
        rw [hcode] at hpaused
        exact absurd rfl hpaused
  · rcases @handleFrame_users cfg env p u sv f with
      ⟨-, hlogin⟩ | ⟨-, hsame | ⟨t, hflag, rfl | ⟨fd, hkick⟩⟩⟩
    · rw [hlogin, Table.get?_modify_of_ne hq] at hentry
      exact absurd rfl hentry
    · rw [hsame] at hentry
      exact absurd rfl hentry
    · rw [hflag, Table.get?_modify_of_ne hq] at hentry
      exact absurd rfl hentry
    · exact heffect _ hkick rfl

/-- **Only administrators command.** Where every accepted login stores its whole name, a
command takes effect, and the pause or the entry of another connection changes, only for a client
that is logged in and whose latest accepted login request carried the admin name. -/
theorem command_by_admin {cfg : Config} {h : History FrameEvent Handled} {sv sv' : Server}
    (hrun : Run (frameMachine cfg) wholeNames h sv) {p : UserPtr} {f : Frame} {env : Env}
    {r : Handled} (hstep : frameStep cfg sv (.frame p f env) = some (sv', r))
    (heff : commandEffect r = true ∨ ChangesOthers p sv sv') :
    (∃ u, sv.users.get? p = some u ∧ u.loggedIn = true) ∧
      lastLogin h p = some cfg.adminName.bytes := by
  obtain ⟨u, hu, rfl, rfl⟩ := frameStep_frame hstep
  have hadmin := admin_of_commandEffect (heff.elim id commandEffect_of_change)
  have hname : u.cname ≠ [] := by
    rw [hadmin]
    exact List.ne_nil_of_length_pos cfg.adminName.pos
  obtain ⟨hin, hlast⟩ := run_nameHistory hrun hu hname
  exact ⟨⟨u, hu, hin⟩, by rw [hlast, hadmin]⟩

/-- The administrator logs in and pauses the chat. -/
theorem command_by_admin_pause :
    ∃ h sv sv' r, Run (frameMachine .default) wholeNames h sv ∧
      frameStep .default sv (.frame 1 (.text 6 (lit "/pause")) ⟨1, 0, [], []⟩) = some (sv', r) ∧
      commandEffect r = true ∧ lastLogin h 1 = some (lit "Admin") := by
  obtain ⟨h, sv, sv', r, hrun, -, hstep, heff⟩ := Run.exists_step_of_replay
    (M := frameMachine .default) (G := wholeNames)
    [.connect 1 1 5, .frame 1 (.login 10 (lit "Admin")) ⟨1, 0, [], []⟩]
    (.frame 1 (.text 6 (lit "/pause")) ⟨1, 0, [], []⟩)
    (fun _ _ _ r => commandEffect r) (by decide +kernel)
  exact ⟨h, sv, sv', r, hrun, hstep, heff, (command_by_admin hrun hstep (.inl heff)).2⟩

/-- A login as `xdmin` and then one as `A` leave `Admin` in the buffer: the commands are open
to a client whose latest login was as `A`. -/
theorem command_after_other_logins :
    ∃ h sv sv' r, Run (frameMachine .default) anyStep h sv ∧
      frameStep .default sv (.frame 1 (.text 6 (lit "/pause")) ⟨1, 0, [], []⟩) = some (sv', r) ∧
      commandEffect r = true ∧ lastLogin h 1 = some (lit "A") ∧
      lit "A" ≠ Config.default.adminName.bytes := by
  obtain ⟨h, sv, sv', r, hrun, -, hstep, hP⟩ := Run.exists_step_of_replay
    (M := frameMachine .default) (G := anyStep)
    [.connect 1 1 5, .frame 1 (.login 10 (lit "xdmin")) ⟨1, 0, [], []⟩,
      .frame 1 (.login 6 (lit "A")) ⟨1, 0, [], []⟩]
    (.frame 1 (.text 6 (lit "/pause")) ⟨1, 0, [], []⟩)
    (fun h _ _ r => commandEffect r && lastLogin h 1 == some (lit "A")) (by decide +kernel)
  rw [Bool.and_eq_true, beq_iff_eq] at hP
  exact ⟨h, sv, sv', r, hrun, hstep, hP.1, hP.2, by decide⟩

end LinuxChat
