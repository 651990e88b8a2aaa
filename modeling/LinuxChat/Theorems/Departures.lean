import LinuxChat.Logic.LoginNames
import LinuxChat.Logic.Shutdown

/-!
# Why a user has gone

The reason in a `UserRemove` is chosen from a status that is never
`CS_Closed_Connection` behind the loop and from a flag that refused frames set
as well as kicks. So it tells a kick, and a receive error of a session without
a refused frame; it never tells that the client has closed the connection
(`departure_iff`).
-/

namespace LinuxChat

open CMem Trace

/-! ## What has happened to a session -/

/-- What an event makes of "an administrator has kicked `p`". -/
def kickedUpdate (p : UserPtr) (acc : Bool) : FrameEvent × Handled → Bool
  | (.connect q _ _, _) => if q = p then false else acc
  | (.disconnect q _ _, _) => if q = p then false else acc
  | (.frame _ _ _, r) => acc || r.out.any (kicks p)
  | (.deliver, _) => acc

/-- The present session of `p` has been kicked. -/
def kicked (h : History FrameEvent Handled) (p : UserPtr) : Bool :=
  h.foldl (kickedUpdate p) false

/-- What an event makes of "a frame of `p` was refused". -/
def refusedUpdate (p : UserPtr) (acc : Bool) : FrameEvent × Handled → Bool
  | (.connect q _ _, _) => if q = p then false else acc
  | (.disconnect q _ _, _) => if q = p then false else acc
  | (.frame q f _, _) => acc || (q == p && f.code.refused)
  | (.deliver, _) => acc

/-- `network_Receive` has refused a frame of the present session of `p`. -/
def refusedFrame (h : History FrameEvent Handled) (p : UserPtr) : Bool :=
  h.foldl (refusedUpdate p) false

/-- These are the two ways to `user_should_shutdown`. -/
theorem shutdownCalled_eq (h : History FrameEvent Handled) (p : UserPtr) :
    shutdownCalled h p = (kicked h p || refusedFrame h p) := by
  induction h using List.reverseRecOn with
  | nil => rfl
  | append_singleton h e ih =>
      have hkicked : kicked (h ++ [e]) p = kickedUpdate p (kicked h p) e := by
        simp [kicked, List.foldl_append]
      have hrefused : refusedFrame (h ++ [e]) p = refusedUpdate p (refusedFrame h p) e := by
        simp [refusedFrame, List.foldl_append]
      rw [shutdownCalled_snoc, hkicked, hrefused, ih]
      obtain ⟨ev, r⟩ := e
      cases ev with
      | connect q thread sock => by_cases hq : q = p <;> simp [shutdownUpdate, kickedUpdate,
          refusedUpdate, hq]
      | disconnect q status env => by_cases hq : q = p <;> simp [shutdownUpdate, kickedUpdate,
          refusedUpdate, hq]
      | deliver => rfl
      | frame q f env =>
          simp only [shutdownUpdate, kickedUpdate, refusedUpdate]
          cases kicked h p <;> cases refusedFrame h p <;> cases (q == p && f.code.refused) <;>
            cases r.out.any (kicks p) <;> rfl

/-! ## What the others are told -/

/-- The reason the others are owed: a kick, an orderly close by the peer, or an error. -/
def owedReason (kicked : Bool) (status : Int) : ClientDisconnectCode :=
  if kicked then .kickedFromTheServer
  else if status = 0 then .connectionClosedByClient
  else .communicationError

/-- The reason a `UserRemove` carries. -/
def reasonByte (o : Outgoing) : List UInt8 := o.msg.body.slice 8 1

theorem reasonByte_teardownNotice (now : UInt64) (m : CombinedMessage)
    (reason : ClientDisconnectCode) (u : User) :
    reasonByte (teardownNotice now m reason u) = [reason.code] := by
  simp only [reasonByte, teardownNotice, buildUserRemoved]
  rw [Buf.slice_write_of_le (by omega) (by decide)]
  exact @Buf.slice_write _ _ 8 [reason.code] (by simp [bodySize])

/-- The loop of a teardown is over the others that are logged in. -/
theorem others_logoutUser (l : UserList) (p : UserPtr) :
    ((l.logoutUser p).loggedInUsers.filter fun e => e.1 ≠ p) =
      l.loggedInUsers.filter fun e => e.1 ≠ p := by
  simp only [UserList.loggedInUsers, UserList.logoutUser, Table.modify, List.filter_filter,
    List.filter_map]
  induction l.entries with
  | nil => rfl
  | cons e entries ih =>
      by_cases he : e.1 = p
      · simpa [List.filter_cons, Function.comp_def, he] using ih
      · by_cases hin : e.2.loggedIn = true
        · simpa [List.filter_cons, Function.comp_def, he, hin] using ih
        · simpa [List.filter_cons, Function.comp_def, he, hin] using ih

variable {cfg : Config} {h : History FrameEvent Handled} {sv sv' : Server} {p : UserPtr}

/-- Whoever has logged in has a name length. -/
theorem run_nameLength {G : Guard Server FrameEvent Handled}
    (hrun : Run (frameMachine cfg) G h sv) {u : User} (hu : sv.users.get? p = some u)
    (hlogin : (lastLogin h p).isSome = true) : u.nameLength ≠ 0 := by
  refine run_entry (P := fun last u => last.isSome = true → u.nameLength ≠ 0) ?_ ?_ ?_ hrun hu
    hlogin
  · intro thread sock hsome
    cases hsome
  · intro h sv p u f env _ _ hacc _ _
    have hsize : (loggedInAs u f env).nameLength = f.announced - 5 := Frame.loginSize_eq hacc.1
    have hann := (Frame.announced_receivedLogin hacc.1).1
    omega
  · exact fun hu => hu

/-- The reason a teardown gives, from the history of its session. -/
theorem teardownReason_eq {G : Guard Server FrameEvent Handled}
    (hrun : Run (frameMachine cfg) G h sv) {u : User} (hu : sv.users.get? p = some u)
    {status : Int} (hstatus : status ≤ 0) :
    teardownReason status u .communicationError =
      if kicked h p || refusedFrame h p then .kickedFromTheServer else .communicationError := by
  have hflag : u.shouldShutdown = (kicked h p || refusedFrame h p) := by
    rw [← shutdownCalled_eq, Bool.eq_iff_iff]
    exact flagged_iff_called hrun hu
  -- Behind the loop the status is not positive, so it is not `CS_Closed_Connection`.
  rw [teardownReason, if_neg (by unfold csClosedConnection; omega), hflag]

/-- **The departure notice.** In every run, the teardown of a session that had logged in sends
one `UserRemove` to every other logged-in user, and its reason is the one that is owed if and
only if the session was kicked, or none of its frames was refused and its last `recv` did not
return 0. -/
theorem departure_iff (hrun : Run (frameMachine cfg) anyStep h sv)
    (hlogin : (lastLogin h p).isSome = true) {status : Int} {env : Env} {r : Handled}
    (hstep : frameStep cfg sv (.disconnect p status env) = some (sv', r)) :
    ∃ fd o, r.out = ((sv.users.loggedInUsers.filter fun e => e.1 ≠ p).map fun e =>
        .notify e.2.sock o) ++ [.close fd] ∧
      o.msg.header.type = MessageType.userRemove.code ∧
      (reasonByte o = [(owedReason (kicked h p) status).code] ↔
        kicked h p = true ∨ (refusedFrame h p = false ∧ status ≠ 0)) := by
  obtain ⟨u, hu, hstatus, rfl, -⟩ := frameStep_disconnect hstep
  refine ⟨u.sock, teardownNotice env.now .zero (teardownReason status u .communicationError) u,
    ?_, rfl, ?_⟩
  · have hother := others_logoutUser sv.users p
    simp only [clientTeardown, if_pos (run_nameLength hrun hu hlogin), hother]
  · rw [reasonByte_teardownNotice, teardownReason_eq hrun hu hstatus, List.cons.injEq,
      and_iff_left rfl]
    unfold owedReason
    cases kicked h p with
    | true => simp
    | false =>
        by_cases hzero : status = 0
        · cases refusedFrame h p <;> simp [hzero, ClientDisconnectCode.code]
        · cases refusedFrame h p <;> simp [hzero, ClientDisconnectCode.code]

/-- The connection of `bob` breaks while `eve` is logged in: she is told of an error. -/
theorem departure_error :
    ∃ h sv sv' r fd o, Run (frameMachine .default) anyStep h sv ∧
      frameStep .default sv (.disconnect 1 (-1) ⟨1, 0, [], []⟩) = some (sv', r) ∧
      r.out = [.notify 6 o, .close fd] ∧
      reasonByte o = [(owedReason (kicked h 1) (-1)).code] := by
  obtain ⟨h, sv, sv', r, hrun, -, hstep, hP⟩ := Run.exists_step_of_replay
    (M := frameMachine .default) (G := anyStep)
    [.connect 1 1 5, .frame 1 (.login 8 (lit "bob")) ⟨1, 0, [], []⟩, .connect 2 2 6,
      .frame 2 (.login 8 (lit "eve")) ⟨2, 0, [], []⟩]
    (.disconnect 1 (-1) ⟨1, 0, [], []⟩)
    (fun h sv _ _ => (lastLogin h 1).isSome && !refusedFrame h 1 &&
      decide (((sv.users.loggedInUsers.filter fun e => e.1 ≠ 1).map fun e => e.2.sock) = [6]))
    (by decide +kernel)
  simp only [Bool.and_eq_true, Bool.not_eq_true', decide_eq_true_eq] at hP
  obtain ⟨⟨hlogin, hrefused⟩, hothers⟩ := hP
  obtain ⟨fd, o, hout, -, hreason⟩ := departure_iff hrun hlogin hstep
  refine ⟨h, sv, sv', r, fd, o, hrun, hstep, ?_, hreason.mpr (.inr ⟨hrefused, by decide⟩)⟩
  have hmap : ((sv.users.loggedInUsers.filter fun e => e.1 ≠ 1).map fun e =>
      Output.notify e.2.sock o) = ([6].map fun sock => Output.notify sock o) := by
    rw [← hothers, List.map_map]
    rfl
  rw [hout, hmap]
  rfl

/-- `bob` closes the connection himself, without a kick: `eve` is told of an error all the
same. -/
theorem orderly_close_told_as_error :
    ∃ h sv sv' r o, Run (frameMachine .default) anyStep h sv ∧
      frameStep .default sv (.disconnect 1 0 ⟨1, 0, [], []⟩) = some (sv', r) ∧
      (lastLogin h 1).isSome = true ∧ kicked h 1 = false ∧ r.out = [.notify 6 o, .close 5] ∧
      owedReason (kicked h 1) 0 = .connectionClosedByClient ∧
      reasonByte o = [ClientDisconnectCode.communicationError.code] := by
  obtain ⟨h, sv, sv', r, hrun, -, hstep, hP⟩ := Run.exists_step_of_replay
    (M := frameMachine .default) (G := anyStep)
    [.connect 1 1 5, .frame 1 (.login 8 (lit "bob")) ⟨1, 0, [], []⟩, .connect 2 2 6,
      .frame 2 (.login 8 (lit "eve")) ⟨2, 0, [], []⟩]
    (.disconnect 1 0 ⟨1, 0, [], []⟩)
    (fun h _ _ r => (lastLogin h 1).isSome && !kicked h 1 &&
      r.out.any fun x => x.outgoing?.any fun o => decide (r.out = [.notify 6 o, .close 5]) &&
        reasonByte o == [ClientDisconnectCode.communicationError.code]) (by decide +kernel)
  rw [Bool.and_eq_true, Bool.and_eq_true, Bool.not_eq_true', List.any_eq_true] at hP
  obtain ⟨⟨hlogin, hkicked⟩, x, -, hx⟩ := hP
  obtain ⟨o, -, ho⟩ := (Option.any_eq_true _ _).mp hx
  rw [Bool.and_eq_true, decide_eq_true_eq, beq_iff_eq] at ho
  exact ⟨h, sv, sv', r, o, hrun, hstep, hlogin, hkicked, ho.1, by rw [hkicked]; rfl, ho.2⟩

end LinuxChat
