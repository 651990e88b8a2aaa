import LinuxChat.Logic.Shutdown

/-!
# Rejection is final

The receive loop never looks at the flag `user_should_shutdown` sets. What a
session still does after the call is therefore decided by its peer: nothing
but its end if and only if none of its later frames is one that
`network_Receive` accepts.
-/

namespace LinuxChat

open CMem Trace

variable {cfg : Config} {sv sv' : Server} {r : Handled} {h : History FrameEvent Handled}

/-- The session that takes a step. -/
def FrameEvent.session : FrameEvent → Option UserPtr
  | .connect .. | .deliver => none
  | .frame p _ _ | .disconnect p _ _ => some p

/-- A `UserRemove` that goes out. -/
def isUserRemove : Output → Bool
  | .notify _ o => o.builder == .userRemoved
  | _ => false

/-- The step of `p` does nothing but end its session: a frame is at most read, and the end is
the logout, the `UserRemove` and the removal of its entry alone. -/
def OnlyEnds (p : UserPtr) (sv sv' : Server) (r : Handled) : FrameEvent → Prop
  | .frame .. => sv' = sv ∧ ∀ x ∈ r.out, (∃ fd, x = .recv fd) ∨ ∃ fd, x = .read fd
  | .disconnect .. => sv'.queue = sv.queue ∧ sv'.broadcastPaused = sv.broadcastPaused ∧
      sv'.users.get? p = none ∧ (∀ q, q ≠ p → sv'.users.get? q = sv.users.get? q) ∧
      ∀ x ∈ r.out, isUserRemove x = true ∨ ∃ fd, x = .close fd
  | .connect .. | .deliver => True

/-- After `user_should_shutdown` was called for it, a session does nothing but end. -/
def final (cfg : Config) : Guard Server FrameEvent Handled := fun h sv ev =>
  ∀ p, ev.session = some p → shutdownCalled h p = true →
    ∀ sv' r, frameStep cfg sv ev = some (sv', r) → OnlyEnds p sv sv' r ev

/-- After `user_should_shutdown` was called for it, a session gets no frame that
`network_Receive` accepts. -/
def quiet : Guard Server FrameEvent Handled := fun h _ ev =>
  match ev with
  | .frame p f _ => shutdownCalled h p = true → f.code.toInt ≤ 0
  | _ => True

instance (h : History FrameEvent Handled) (sv : Server) : (ev : FrameEvent) →
    Decidable (quiet h sv ev)
  | .frame p f _ => inferInstanceAs (Decidable (shutdownCalled h p = true → f.code.toInt ≤ 0))
  | .connect .. | .disconnect .. | .deliver => isTrue trivial

/-- Every accepted frame makes its session do something. -/
theorem handleFrame_acts (env : Env) (p : UserPtr) (u : User) (sv : Server) {f : Frame}
    (hcode : 0 < f.code.toInt) : ∃ x ∈ (handleFrame cfg env p u sv f.code f.msg).out,
      (∀ fd, x ≠ .recv fd) ∧ ∀ fd, x ≠ .read fd := by
  have hhead : ∀ {x : Output} {rest l : List Output}, l = x :: rest →
      ((∀ fd, x ≠ .recv fd) ∧ ∀ fd, x ≠ .read fd) →
      ∃ x ∈ l, (∀ fd, x ≠ .recv fd) ∧ ∀ fd, x ≠ .read fd :=
    fun hl hx => ⟨_, hl ▸ List.mem_cons_self, hx⟩
  cases hc : f.code with
  | receivedLogin =>
      rw [handleFrame_login]
      split
      · exact hhead rfl ⟨fun _ => by simp, fun _ => by simp⟩
      · exact hhead rfl ⟨fun _ => by simp, fun _ => by simp⟩
  | receivedMessage => exact hhead rfl ⟨fun _ => by simp, fun _ => by simp⟩
  | receivedServerCommand =>
      simp only [handleFrame, handleCommand]
      split
      · cases getServerCommand (cstr f.msg.body.bytes) with
        | kick =>
            simp only [handleKick]
            split
            · exact hhead rfl ⟨fun _ => by simp, fun _ => by simp⟩
            · exact hhead rfl ⟨fun _ => by simp, fun _ => by simp⟩
        | pause =>
            simp only [handlePause]
            split
            · exact hhead rfl ⟨fun _ => by simp, fun _ => by simp⟩
            · exact hhead rfl ⟨fun _ => by simp, fun _ => by simp⟩
        | resume =>
            simp only [handleResume]
            split
            · -- The token goes back after the notices.
              exact ⟨.resume, List.mem_append_right _ (List.mem_singleton_self _),
                fun _ => by simp, fun _ => by simp⟩
            · exact hhead rfl ⟨fun _ => by simp, fun _ => by simp⟩
        | help => exact hhead rfl ⟨fun _ => by simp, fun _ => by simp⟩
        | shutdown | noValidCommand => exact hhead rfl ⟨fun _ => by simp, fun _ => by simp⟩
      · exact hhead rfl ⟨fun _ => by simp, fun _ => by simp⟩
  | zero | invalidLength | magicNumInvalid | versionInvalid | nameLengthInvalid =>
      rw [hc] at hcode
      exact absurd hcode (by decide)

/-- Setting the flag of an entry that has it changes nothing. -/
theorem userShouldShutdown_of_flagged {l : UserList} {p : UserPtr}
    (hflag : ∀ u, l.get? p = some u → u.shouldShutdown = true) :
    l.userShouldShutdown p = l := by
  obtain ⟨entries, hnd⟩ := l
  simp only [UserList.userShouldShutdown, Table.modify, Table.mk.injEq]
  refine (List.map_congr_left fun e he => ?_).trans (List.map_id entries)
  obtain ⟨q, u⟩ := e
  by_cases hq : q = p
  · subst hq
    have hu := hflag u (Table.get?_eq_some_iff.mpr he)
    simp only [if_true, id_eq, User.flag, ← hu]
  · simp [hq]

/-- Of a flagged session, a frame that is not accepted is read and forgotten. -/
theorem onlyEnds_frame {p : UserPtr} {f : Frame} {env : Env}
    (hflag : ∀ u, sv.users.get? p = some u → u.shouldShutdown = true)
    (hstep : frameStep cfg sv (.frame p f env) = some (sv', r)) :
    OnlyEnds p sv sv' r (.frame p f env) ↔ f.code.toInt ≤ 0 := by
  obtain ⟨u, hu, rfl, rfl⟩ := frameStep_frame hstep
  constructor
  · rintro ⟨-, hout⟩
    by_contra hno
    have hpos : 0 < f.code.toInt := by omega
    obtain ⟨x, hx, hrecv, hread⟩ := @handleFrame_acts cfg env p u sv f hpos
    have hmem : x ∈ (clientPass cfg env p u sv f.received).out := by
      rw [f.received_eq]
      exact List.mem_cons_of_mem _ (List.mem_append_right _ hx)
    rcases hout x hmem with ⟨fd, hfd⟩ | ⟨fd, hfd⟩
    · exact hrecv fd hfd
    · exact hread fd hfd
  · intro hle
    -- Not accepted is refused, which sets the flag again, or unknown, which does nothing.
    have hnone : (handleFrame cfg env p u sv f.code f.msg).server = sv ∧
        (handleFrame cfg env p u sv f.code f.msg).out = [] := by
      by_cases hrefused : f.code.refused = true
      · rw [handleFrame_refused hrefused, userShouldShutdown_of_flagged hflag]
        exact ⟨rfl, rfl⟩
      · cases hc : f.code with
        | zero => exact ⟨rfl, rfl⟩
        | receivedLogin | receivedMessage | receivedServerCommand =>
            rw [hc] at hle
            exact absurd hle (by decide)
        | invalidLength | magicNumInvalid | versionInvalid | nameLengthInvalid =>
            rw [hc] at hrefused
            exact absurd rfl hrefused
    refine ⟨?_, fun x hx => ?_⟩
    · rw [f.received_eq]
      exact hnone.1
    · rcases mem_out_frame hx with rfl | rfl | hx
      · exact .inl ⟨_, rfl⟩
      · exact .inr ⟨_, rfl⟩
      · rw [hnone.2] at hx
        cases hx

/-- The end of a session is its logout, its `UserRemove` and the removal of its entry. -/
theorem onlyEnds_disconnect {p : UserPtr} {status : Int} {env : Env}
    (hsock : UserList.SockUnique sv.users)
    (hstep : frameStep cfg sv (.disconnect p status env) = some (sv', r)) :
    OnlyEnds p sv sv' r (.disconnect p status env) := by
  have hgone : sv'.users.get? p = none := get?_disconnect hsock hstep
  have hothers : ∀ q, q ≠ p → sv'.users.get? q = sv.users.get? q := fun q hq =>
    get?_disconnect_of_ne hsock hstep hq
  obtain ⟨u, hu, -, rfl, rfl⟩ := frameStep_disconnect hstep
  refine ⟨rfl, rfl, hgone, hothers, ?_⟩
  intro x hx
  simp only [clientTeardown, List.mem_append, List.mem_singleton] at hx
  rcases hx with hx | rfl
  · split at hx
    · obtain ⟨e, -, rfl⟩ := List.mem_map.mp hx
      exact .inl rfl
    · cases hx
  · exact .inr ⟨_, rfl⟩

theorem run_sockUnique {G : Guard Server FrameEvent Handled}
    (hrun : Run (frameMachine cfg) G h sv) : UserList.SockUnique sv.users :=
  hrun.invariant (I := fun _ sv => UserList.SockUnique sv.users)
    (fun p q u v hu => by simp [frameMachine, Server.init] at hu)
    fun _ _ _ _ _ hinv _ hstep => frameStep_sockUnique hinv hstep

/-- **Rejection is final** in exactly the runs in which no session gets a frame that
`network_Receive` accepts after `user_should_shutdown` was called for it. -/
theorem final_iff :
    Run (frameMachine cfg) (final cfg) h sv ↔ Run (frameMachine cfg) quiet h sv := by
  refine Run.iff_of_guards (I := Run (frameMachine cfg) anyStep) .init
    (fun _ _ _ _ _ hrun _ hstep => .step hrun trivial hstep) fun h sv ev sv' r hrun hstep => ?_
  replace hstep : frameStep cfg sv ev = some (sv', r) := hstep
  have honly : ∀ {p}, ev.session = some p →
      (final cfg h sv ev ↔ (shutdownCalled h p = true → OnlyEnds p sv sv' r ev)) := by
    intro p hp
    constructor
    · exact fun hfinal hcalled => hfinal p hp hcalled sv' r hstep
    · intro hends q hq hcalled sv₁ r₁ hstep₁
      rw [hp, Option.some.injEq] at hq
      rw [hstep, Option.some.injEq, Prod.mk.injEq] at hstep₁
      obtain ⟨rfl, rfl⟩ := hstep₁
      exact hq ▸ hends (hq ▸ hcalled)
  cases ev with
  | connect p thread sock => exact iff_of_true (by rintro q ⟨⟩) trivial
  | deliver => exact iff_of_true (by rintro q ⟨⟩) trivial
  | frame p f env =>
      rw [honly rfl]
      refine forall_congr' fun hcalled => ?_
      exact onlyEnds_frame (fun u hu => (flagged_iff_called hrun hu).mpr hcalled) hstep
  | disconnect p status env =>
      rw [honly rfl]
      exact iff_of_true (fun _ => onlyEnds_disconnect (run_sockUnique hrun) hstep) trivial

/-- A login request with the wrong magic is refused, and the login request after it logs the
flagged client in. -/
theorem not_final_after_refusal :
    ∃ h sv sv' r, Run (frameMachine .default) anyStep h sv ∧ shutdownCalled h 1 = true ∧
      frameStep .default sv (.frame 1 (.login 8 (lit "bob")) ⟨1, 0, [], []⟩) = some (sv', r) ∧
      (sv'.users.get? 1).map (fun u => (u.shouldShutdown, u.loggedIn)) = some (true, true) ∧
      ¬ final .default h sv (.frame 1 (.login 8 (lit "bob")) ⟨1, 0, [], []⟩) := by
  obtain ⟨h, sv, sv', r, hrun, -, hstep, hP⟩ := Run.exists_step_of_replay
    (M := frameMachine .default) (G := anyStep)
    [.connect 1 1 5,
      .frame 1 ⟨⟨MessageType.loginRequest.code, 8⟩, some (List.replicate 8 97)⟩ ⟨1, 0, [], []⟩]
    (.frame 1 (.login 8 (lit "bob")) ⟨1, 0, [], []⟩)
    (fun h sv sv' _ => shutdownCalled h 1 &&
      decide ((sv.users.get? 1).map (fun u => (u.shouldShutdown, u.loggedIn)) =
        some (true, false)) &&
      decide ((sv'.users.get? 1).map (fun u => (u.shouldShutdown, u.loggedIn)) =
        some (true, true))) (by decide +kernel)
  simp only [Bool.and_eq_true, decide_eq_true_eq] at hP
  obtain ⟨⟨hcalled, hbefore⟩, hafter⟩ := hP
  refine ⟨h, sv, sv', r, hrun, hcalled, hstep, hafter, fun hfinal => ?_⟩
  have hsame : sv' = sv := (hfinal 1 rfl hcalled sv' r hstep).1
  rw [hsame, hbefore] at hafter
  exact absurd hafter (by decide)

end LinuxChat
