import LinuxChat.Logic.FrameStep

/-!
# When `user_should_shutdown` was called

`shutdownCalled` reads off the history whether it was called for the present
session of an entry, by a frame of its own that was refused or by a `/kick`;
the flag of the entry says the same (`flagged_iff_called`).
-/

namespace LinuxChat

open CMem Trace

variable {cfg : Config} {sv sv' : Server} {r : Handled} {p q : UserPtr}

/-- The codes below zero, for which the switch calls `user_should_shutdown`. -/
def NetworkValidationCode.refused (code : NetworkValidationCode) : Bool := code.toInt < 0

/-- `user_should_shutdown(p)` by a `/kick`. -/
def kicks (p : UserPtr) : Output → Bool
  | .kick q _ => q == p
  | _ => false

/-- What an event makes of "`user_should_shutdown` was called for `p`". -/
def shutdownUpdate (p : UserPtr) (acc : Bool) : FrameEvent × Handled → Bool
  | (.connect q _ _, _) => if q = p then false else acc
  | (.disconnect q _ _, _) => if q = p then false else acc
  | (.frame q f _, r) => acc || (q == p && f.code.refused) || r.out.any (kicks p)
  | (.deliver, _) => acc

/-- `user_should_shutdown` has been called for the present session of `p`. -/
def shutdownCalled (h : History FrameEvent Handled) (p : UserPtr) : Bool :=
  h.foldl (shutdownUpdate p) false

@[simp] theorem shutdownCalled_snoc (h : History FrameEvent Handled) (e : FrameEvent × Handled)
    (p : UserPtr) : shutdownCalled (h ++ [e]) p = shutdownUpdate p (shutdownCalled h p) e := by
  simp [shutdownCalled, List.foldl_append]

/-- A refused frame has no effect but the flag. -/
theorem handleFrame_refused {env : Env} {u : User} {code : NetworkValidationCode}
    {m : CombinedMessage} (h : code.refused = true) :
    handleFrame cfg env p u sv code m =
      { server := { sv with users := sv.users.userShouldShutdown p }, msg := m, out := []
        accesses := [] } := by
  cases code with
  | invalidLength | magicNumInvalid | versionInvalid | nameLengthInvalid => rfl
  | zero | receivedLogin | receivedMessage | receivedServerCommand => exact absurd h (by decide)

/-- Only the command case kicks, and it flags whom it kicks. -/
theorem handleFrame_kick {env : Env} {u : User} {f : Frame} {fd : Nat}
    (hkick : Output.kick q fd ∈ (handleFrame cfg env p u sv f.code f.msg).out) :
    (handleFrame cfg env p u sv f.code f.msg).server.users = sv.users.userShouldShutdown q := by
  have hall : ∀ o, Output.kick q fd ∉ notifyAll sv.users o := by
    intro o hmem
    obtain ⟨e, -, he⟩ := List.mem_map.mp hmem
    cases he
  cases hcode : f.code with
  | receivedServerCommand =>
      rw [hcode] at hkick
      simp only [handleFrame, handleCommand] at hkick ⊢
      split at hkick <;> rename_i hadmin
      · rw [if_pos hadmin]
        cases hcmd : getServerCommand (cstr f.msg.body.bytes) with
        | kick =>
            rw [hcmd] at hkick
            simp only [handleKick] at hkick ⊢
            split at hkick
            · simp only [List.mem_singleton, Output.kick.injEq] at hkick
              rw [hkick.1]
            · simp [replyOnly] at hkick
        | pause =>
            rw [hcmd] at hkick
            simp only [handlePause] at hkick
            split at hkick <;> simp [replyOnly, hall] at hkick
        | resume =>
            rw [hcmd] at hkick
            simp only [handleResume] at hkick
            split at hkick <;> simp [replyOnly, hall] at hkick
        | help =>
            rw [hcmd] at hkick
            simp [handleHelp] at hkick
        | shutdown | noValidCommand =>
            rw [hcmd] at hkick
            simp [replyOnly] at hkick
      · simp [replyOnly] at hkick
  | receivedLogin =>
      rw [hcode, handleFrame_login] at hkick
      split at hkick <;> simp [loginAccepted] at hkick
  | receivedMessage =>
      rw [hcode] at hkick
      simp only [handleFrame, handleMessage] at hkick
      split at hkick <;> simp at hkick
  | _ =>
      rw [hcode] at hkick
      simp [handleFrame] at hkick

/-- No step but the end of its session takes the flag from an entry. -/
theorem frameStep_keeps_flag {ev : FrameEvent} (h : frameStep cfg sv ev = some (sv', r))
    {u u' : User} (hu : sv.users.get? p = some u) (hflag : u.shouldShutdown = true)
    (hu' : sv'.users.get? p = some u') : u'.shouldShutdown = true := by
  have hsame : ∀ v, sv.users.get? p = some v → v.shouldShutdown = true := by
    intro v hv
    rw [hu, Option.some.injEq] at hv
    rw [← hv, hflag]
  cases frameStep_entry h hu' with
  | created thread sock hev =>
      subst hev
      obtain ⟨hp, -⟩ := frameStep_connect h
      rw [Table.get?_eq_none_iff.mpr hp] at hu
      cases hu
  | login v f env hv hev hacc hnew =>
      rw [hnew]
      exact hsame v hv
  | logout v status env hv hev hnew =>
      rw [hnew]
      exact hsame v hv
  | kept v hv hkept =>
      rcases hkept with rfl | rfl
      · exact hsame u' hv
      · rfl

/-- Only a connection makes an entry. -/
theorem get?_before {ev : FrameEvent} (h : frameStep cfg sv ev = some (sv', r))
    (hev : ∀ q thread sock, ev ≠ .connect q thread sock) {u' : User}
    (hu' : sv'.users.get? p = some u') : sv.users.get? p ≠ none := by
  cases frameStep_entry h hu' with
  | created thread sock hconnect => exact absurd hconnect (hev p thread sock)
  | login u f env hu => rw [hu]; exact Option.some_ne_none u
  | logout u status env hu => rw [hu]; exact Option.some_ne_none u
  | kept u hu => rw [hu]; exact Option.some_ne_none u

/-! ## Who is flagged -/

/-- A frame flags nobody but its own client, if it is refused, and whom it kicks. -/
theorem handleFrame_flagged {env : Env} {u v' : User} {f : Frame}
    (hv' : (handleFrame cfg env p u sv f.code f.msg).server.users.get? q = some v')
    (hflag : v'.shouldShutdown = true) :
    (∃ v, sv.users.get? q = some v ∧ v.shouldShutdown = true) ∨
      (q = p ∧ f.code.refused = true) ∨
        (handleFrame cfg env p u sv f.code f.msg).out.any (kicks q) = true := by
  by_cases hrefused : f.code.refused = true
  · rw [handleFrame_refused hrefused] at hv'
    obtain ⟨v, hv, rfl⟩ := Table.exists_of_get?_modify hv'
    split at hflag
    · rename_i hqp
      exact .inr (.inl ⟨hqp, hrefused⟩)
    · exact .inl ⟨v, hv, hflag⟩
  cases hcode : f.code with
  | receivedLogin =>
      -- A login leaves the flag as it is.
      rw [hcode, handleFrame_login] at hv'
      split at hv'
      · obtain ⟨v, hv, rfl⟩ := Table.exists_of_get?_modify hv'
        refine .inl ⟨v, hv, ?_⟩
        split at hflag <;> exact hflag
      · exact .inl ⟨v', hv', hflag⟩
  | receivedServerCommand =>
      rw [hcode] at hv'
      rcases @handleCommand_users cfg env u sv f.msg with hsame | ⟨t, fd, hmod, hkick⟩
      · exact .inl ⟨v', hsame ▸ hv', hflag⟩
      · have hv'' : (sv.users.userShouldShutdown t).get? q = some v' := hmod ▸ hv'
        obtain ⟨v, hv, rfl⟩ := Table.exists_of_get?_modify hv''
        split at hflag
        · rename_i hqt
          exact .inr (.inr (List.any_eq_true.mpr ⟨_, hkick, by simp [kicks, hqt]⟩))
        · exact .inl ⟨v, hv, hflag⟩
  | receivedMessage | zero =>
      rw [hcode] at hv'
      exact .inl ⟨v', hv', hflag⟩
  | _ => exact absurd (by rw [hcode]; rfl) hrefused

/-- Behind a frame, flagged is who was, whose own frame was refused, and who was kicked. -/
theorem frame_flag_iff {f : Frame} {env : Env} {u u' : User}
    (hstep : frameStep cfg sv (.frame q f env) = some (sv', r)) (hu : sv.users.get? p = some u)
    (hu' : sv'.users.get? p = some u') :
    u'.shouldShutdown = true ↔
      u.shouldShutdown = true ∨ (q = p ∧ f.code.refused = true) ∨ r.out.any (kicks p) = true := by
  have hkeep := fun hflag => frameStep_keeps_flag hstep hu hflag hu'
  obtain ⟨v, hv, rfl, rfl⟩ := frameStep_frame hstep
  rw [any_out_frame env q v sv f (fun _ => rfl) (fun _ => rfl)]
  rw [f.received_eq] at hu'
  replace hu' : (handleFrame cfg env q v sv f.code f.msg).server.users.get? p = some u' := hu'
  constructor
  · intro hflag
    rcases handleFrame_flagged hu' hflag with ⟨w, hw, hwflag⟩ | ⟨hpq, hrefused⟩ | hkick
    · rw [hu, Option.some.injEq] at hw
      exact .inl (hw ▸ hwflag)
    · exact .inr (.inl ⟨hpq.symm, hrefused⟩)
    · exact .inr (.inr hkick)
  · -- Both ways to set the flag are the one call.
    have hset : (handleFrame cfg env q v sv f.code f.msg).server.users =
        sv.users.userShouldShutdown p → u'.shouldShutdown = true := by
      intro hcall
      rw [hcall] at hu'
      obtain ⟨w, -, rfl⟩ := Table.exists_of_get?_modify hu'
      rw [if_pos rfl]
      rfl
    rintro (hflag | ⟨rfl, hrefused⟩ | hkick)
    · exact hkeep hflag
    · exact hset (by rw [handleFrame_refused hrefused])
    · obtain ⟨x, hx, hkicks⟩ := List.any_eq_true.mp hkick
      cases x with
      | kick t fd =>
          have ht : t = p := by simpa [kicks] using hkicks
          subst ht
          exact hset (handleFrame_kick hx)
      | _ => cases hkicks

/-- Flagged is who `user_should_shutdown` was called for. -/
theorem flagged_iff_called {G : Guard Server FrameEvent Handled} {h : History FrameEvent Handled}
    (hrun : Run (frameMachine cfg) G h sv) {u : User} (hu : sv.users.get? p = some u) :
    u.shouldShutdown = true ↔ shutdownCalled h p = true := by
  refine (hrun.invariant (I := fun h sv => UserList.SockUnique sv.users ∧
    ∀ u, sv.users.get? p = some u → (u.shouldShutdown = true ↔ shutdownCalled h p = true))
    ⟨?_, ?_⟩ ?_).2 u hu
  · intro p q u v hu
    simp [frameMachine, Server.init] at hu
  · intro u hu
    simp [frameMachine, Server.init] at hu
  · rintro h sv ev sv' r ⟨hsock, hinv⟩ - hstep
    replace hstep : frameStep cfg sv ev = some (sv', r) := hstep
    refine ⟨frameStep_sockUnique hsock hstep, ?_⟩
    intro u' hu'
    rw [shutdownCalled_snoc]
    cases ev with
    | connect q thread sock =>
        obtain ⟨hq, husers, -⟩ := frameStep_connect hstep
        rw [husers, Table.get?_append] at hu'
        by_cases hpq : p = q
        · rw [if_pos hpq] at hu'
          cases hu'
          rw [shutdownUpdate, if_pos hpq.symm]
          rfl
        · rw [if_neg hpq] at hu'
          rw [shutdownUpdate, if_neg (Ne.symm hpq)]
          exact hinv u' hu'
    | disconnect q status env =>
        by_cases hqp : q = p
        · subst hqp
          rw [get?_disconnect hsock hstep] at hu'
          cases hu'
        · rw [shutdownUpdate, if_neg hqp]
          rw [get?_disconnect_of_ne hsock hstep (Ne.symm hqp)] at hu'
          exact hinv u' hu'
    | deliver =>
        rw [(frameStep_deliver hstep).1] at hu'
        exact hinv u' hu'
    | frame q f env =>
        obtain ⟨u, hu⟩ := Option.ne_none_iff_exists'.mp
          (get?_before hstep (by rintro _ _ _ ⟨⟩) hu')
        rw [frame_flag_iff hstep hu hu', hinv u hu]
        simp only [shutdownUpdate, Bool.or_eq_true, Bool.and_eq_true, beq_iff_eq, or_assoc]

end LinuxChat
