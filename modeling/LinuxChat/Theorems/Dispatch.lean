import LinuxChat.Logic.Builders
import LinuxChat.Logic.Commands

/-!
# Commands and their table

The first word of a command decides what is done: the case of its row, or the
reply that the command is invalid. The switch has a case for every row but
one: `/shutdown` is in the table and gets that reply too (`dispatches_iff`).
-/

namespace LinuxChat

open CMem Trace

/-- The message says that the command is invalid. -/
def saysInvalid (o : Outgoing) : Bool :=
  let text := lit "Caution! detected invalid [server_commands] "
  o.msg.body.slice 40 text.length == text

/-- The pass does what the table has for the first word of the command. -/
structure DispatchesByTable (cfg : Config) (sv sv' : Server) (u : User) (f : Frame) (env : Env)
    (r : Handled) : Prop where
  /-- A word of the table: the case of its row runs, and nothing is called invalid. -/
  own : ∀ row ∈ allAdminCommandsData, firstWord (cstr f.msg.body.bytes) = row.syntaxWord →
    ∃ handled, switchCase cfg env u sv f.msg row.code = some handled ∧
      sv' = handled.server ∧ r.out = .recv u.sock :: .read u.sock :: handled.out ∧
      ∀ x ∈ r.out, ∀ o, x.outgoing? = some o → saysInvalid o = false
  /-- Any other word: one reply, and nothing else. -/
  invalid : (∀ row ∈ allAdminCommandsData,
      firstWord (cstr f.msg.body.bytes) ≠ row.syntaxWord) →
    sv' = sv ∧ ∃ o, r.out = [.recv u.sock, .read u.sock, .reply u.sock o] ∧
      o = buildServerResponse cfg f.msg env.now
        (lit "Caution! detected invalid [server_commands] " ++ cstr f.msg.body.bytes)

/-! ## No case calls its command invalid -/

variable {cfg : Config} {sv sv' : Server} {p : UserPtr} {u : User} {f : Frame} {env : Env}
  {r : Handled}

/-- The text of a reply starts with its first byte. -/
theorem slice_reply {o : Outgoing} {c : UInt8}
    (hbody : ∃ m now sender text, o.msg.body = replyBody m now sender (c :: text) ∧
      text.length + 1 ≤ netTextLen) :
    o.msg.body.slice 40 1 = [c] := by
  obtain ⟨m, now, sender, text, hbody, hlen⟩ := hbody
  rw [hbody, replyBody]
  refine (Buf.slice_write_take ?_ ?_).trans rfl
  · rw [List.length_cons]
    unfold netTextLen at hlen
    unfold bodySize
    omega
  · simp

theorem not_saysInvalid {o : Outgoing} {c : UInt8} (hslice : o.msg.body.slice 40 1 = [c])
    (hc : c ≠ 67) : saysInvalid o = false := by
  by_contra hsays
  rw [Bool.not_eq_false, saysInvalid, beq_iff_eq] at hsays
  have hfirst := congrArg (List.take 1) hsays
  have htake :
      (o.msg.body.slice 40 (lit "Caution! detected invalid [server_commands] ").length).take 1 =
        o.msg.body.slice 40 1 := by
    rw [Buf.slice, Buf.slice, List.take_take]
    rfl
  rw [htake, hslice] at hfirst
  exact hc (List.cons.inj hfirst).1

/-- A reply whose text starts with another letter. -/
theorem not_saysInvalid_reply {m : CombinedMessage} {now : UInt64} {c : UInt8}
    {text : List UInt8} (hzero : c ≠ 0) (hc : c ≠ 67) :
    saysInvalid (buildServerResponse cfg m now (c :: text)) = false := by
  refine not_saysInvalid (slice_reply ⟨m, now, cfg.serverName.bytes,
    cstr (text.take (netTextLen - 2)), ?_, ?_⟩) hc
  · rw [← cstr_cons_of_ne hzero]
    rfl
  · have := length_cstr_le (text.take (netTextLen - 2))
    rw [List.length_take] at this
    unfold netTextLen at *
    omega

theorem not_saysInvalid_special {m : CombinedMessage} {now : UInt64} {c : UInt8}
    {name text : List UInt8} (hzero : c ≠ 0) (hc : c ≠ 67) :
    saysInvalid (buildServerResponseSpecial m now name (c :: text)) = false := by
  refine not_saysInvalid (slice_reply ⟨m, now, name, cstr (text.take (netTextLen - 2)), ?_, ?_⟩)
    hc
  · rw [← cstr_cons_of_ne hzero]
    rfl
  · have := length_cstr_le (text.take (netTextLen - 2))
    rw [List.length_take] at this
    unfold netTextLen at *
    omega

/-- No case of the switch calls its command invalid. -/
theorem switchCase_valid {m : CombinedMessage} {code : AdminCommandCode} {handled : Handled}
    (hcase : switchCase cfg env u sv m code = some handled) {x : Output} (hx : x ∈ handled.out)
    {o : Outgoing} (ho : x.outgoing? = some o) : saysInvalid o = false := by
  cases code with
  | kick =>
      cases hcase
      simp only [handleKick] at hx
      split at hx
      · rw [List.mem_singleton.mp hx] at ho
        cases ho
      · rw [List.mem_singleton.mp hx] at ho
        cases ho
        exact not_saysInvalid_reply (c := 91) (by decide) (by decide)
  | pause =>
      cases hcase
      simp only [handlePause] at hx
      split at hx
      · rw [List.mem_singleton.mp hx] at ho
        cases ho
        exact not_saysInvalid_reply (c := 83) (by decide) (by decide)
      · rcases List.mem_cons.mp hx with rfl | hx
        · cases ho
        · obtain ⟨e, -, rfl⟩ := List.mem_map.mp hx
          cases ho
          exact not_saysInvalid_reply (c := 97) (by decide) (by decide)
  | resume =>
      cases hcase
      simp only [handleResume] at hx
      split at hx
      · rcases List.mem_append.mp hx with hx | hx
        · obtain ⟨e, -, rfl⟩ := List.mem_map.mp hx
          cases ho
          exact not_saysInvalid_reply (c := 97) (by decide) (by decide)
        · rw [List.mem_singleton.mp hx] at ho
          cases ho
      · rw [List.mem_singleton.mp hx] at ho
        cases ho
        exact not_saysInvalid_reply (c := 83) (by decide) (by decide)
  | help =>
      cases hcase
      obtain ⟨⟨row, buffer⟩, hrow, rfl⟩ := List.mem_map.mp hx
      cases ho
      -- Each description starts with a letter other than that of the invalid reply.
      have hletters : ∀ row ∈ allAdminCommandsData,
          row.description.headD 0 ≠ 0 ∧ row.description.headD 0 ≠ 67 := by decide +kernel
      obtain ⟨hzero, hc⟩ := hletters row (List.of_mem_zip hrow).1
      cases htext : row.description with
      | nil =>
          rw [htext] at hzero
          exact absurd rfl hzero
      | cons c text =>
          rw [htext] at hzero hc
          exact not_saysInvalid_special hzero hc
  | shutdown => cases hcase
  | noValidCommand => cases hcase

/-! ## The dispatch -/

/-- The table has each word once, so a word of the table finds its own row. -/
theorem getServerCommand_of_row {text : List UInt8} {row : ACCommandData}
    (hrow : row ∈ allAdminCommandsData) (hword : firstWord text = row.syntaxWord) :
    getServerCommand text = row.code := by
  have hfind : ∀ row ∈ allAdminCommandsData,
      (allAdminCommandsData.find? fun other => row.syntaxWord = other.syntaxWord) = some row := by
    decide +kernel
  rw [getServerCommand_eq, hword, hfind row hrow]

theorem getServerCommand_of_no_row {text : List UInt8}
    (hno : ∀ row ∈ allAdminCommandsData, firstWord text ≠ row.syntaxWord) :
    getServerCommand text = .noValidCommand := by
  have hfind : (allAdminCommandsData.find? fun row => firstWord text = row.syntaxWord) = none := by
    rw [List.find?_eq_none]
    intro row hrow
    simpa using hno row hrow
  rw [getServerCommand_eq, hfind]

/-- Every row but that of `/shutdown` has its case. -/
theorem switchCase_of_row {row : ACCommandData} (hrow : row ∈ allAdminCommandsData)
    (hword : row.syntaxWord ≠ lit "/shutdown") (m : CombinedMessage) :
    ∃ handled, switchCase cfg env u sv m row.code = some handled := by
  have hcode : row.code ≠ .shutdown ∧ row.code ≠ .noValidCommand := by
    revert row
    decide
  cases hc : row.code with
  | shutdown => exact absurd hc hcode.1
  | noValidCommand => exact absurd hc hcode.2
  | kick => exact ⟨_, rfl⟩
  | pause => exact ⟨_, rfl⟩
  | resume => exact ⟨_, rfl⟩
  | help => exact ⟨_, rfl⟩

/-- **Commands follow the table.** Whatever an administrator sends as a command, the pass does
what the table has for its first word if and only if that word is not `/shutdown`. -/
theorem dispatches_iff (hcmd : f.IsCommand) (hadmin : u.cname = cfg.adminName.bytes)
    (hu : sv.users.get? p = some u)
    (hstep : frameStep cfg sv (.frame p f env) = some (sv', r)) :
    DispatchesByTable cfg sv sv' u f env r ↔
      firstWord (cstr f.msg.body.bytes) ≠ lit "/shutdown" := by
  obtain ⟨v, hv, rfl, rfl⟩ := frameStep_frame hstep
  rw [hu, Option.some.injEq] at hv
  subst hv
  obtain ⟨hserver, hout⟩ := @pass_command cfg sv p u f env hcmd
  rw [handleCommand_admin hadmin] at hserver hout
  constructor
  · intro hdispatch hword
    -- Its row has a code the switch has no case for.
    obtain ⟨handled, hcase, -⟩ := hdispatch.own
      ⟨lit "shutdown", lit "/shutdown", lit "Disconnect all clients and shutdown the server",
        .shutdown⟩ (by decide) hword
    cases hcase
  · intro hword
    constructor
    · intro row hrow hfirst
      obtain ⟨handled, hcase⟩ := @switchCase_of_row cfg sv u env row hrow (hfirst ▸ hword) f.msg
      rw [getServerCommand_of_row hrow hfirst, hcase, Option.getD_some] at hserver hout
      refine ⟨handled, hcase, hserver, hout, fun x hx o ho => ?_⟩
      rw [hout] at hx
      rcases List.mem_cons.mp hx with rfl | hx
      · cases ho
      rcases List.mem_cons.mp hx with rfl | hx
      · cases ho
      exact switchCase_valid hcase hx ho
    · intro hno
      rw [getServerCommand_of_no_row hno] at hserver hout
      exact ⟨hserver, _, hout, rfl⟩

/-- The administrator pauses the chat with a word in front of some text. -/
theorem dispatches_pause :
    ∃ sv sv' u r, sv.users.get? 1 = some u ∧
      frameStep .default sv (.frame 1 (.text 10 (lit "/pause now")) ⟨1, 0, [], []⟩) =
        some (sv', r) ∧
      DispatchesByTable .default sv sv' u (.text 10 (lit "/pause now")) ⟨1, 0, [], []⟩ r := by
  obtain ⟨h, sv, sv', r, -, -, hstep, hP⟩ := Run.exists_step_of_replay
    (M := frameMachine .default) (G := anyStep)
    [.connect 1 1 5, .frame 1 (.login 10 (lit "Admin")) ⟨1, 0, [], []⟩]
    (.frame 1 (.text 10 (lit "/pause now")) ⟨1, 0, [], []⟩)
    (fun _ sv _ _ => (sv.users.get? 1).any fun u => u.cname == Config.default.adminName.bytes)
    (by decide +kernel)
  obtain ⟨u, hu, hadmin⟩ := (Option.any_eq_true _ _).mp hP
  exact ⟨sv, sv', u, r, hu, hstep, (dispatches_iff (by decide +kernel) (beq_iff_eq.mp hadmin) hu
    hstep).mpr (by decide +kernel)⟩

/-- `/shutdown` is in the table, and the administrator is told that it is invalid. -/
theorem shutdown_told_invalid :
    ∃ h sv sv' u r, Run (frameMachine .default) anyStep h sv ∧ sv.users.get? 1 = some u ∧
      u.cname = Config.default.adminName.bytes ∧
      frameStep .default sv (.frame 1 (.text 9 (lit "/shutdown")) ⟨1, 0, [], []⟩) =
        some (sv', r) ∧
      r.out.any (fun x => x.outgoing?.any saysInvalid) = true ∧
      ¬ DispatchesByTable .default sv sv' u (.text 9 (lit "/shutdown")) ⟨1, 0, [], []⟩ r := by
  obtain ⟨h, sv, sv', r, hrun, -, hstep, hP⟩ := Run.exists_step_of_replay
    (M := frameMachine .default) (G := anyStep)
    [.connect 1 1 5, .frame 1 (.login 10 (lit "Admin")) ⟨1, 0, [], []⟩]
    (.frame 1 (.text 9 (lit "/shutdown")) ⟨1, 0, [], []⟩)
    (fun _ sv _ r => ((sv.users.get? 1).any fun u => u.cname == Config.default.adminName.bytes) &&
      r.out.any (fun x => x.outgoing?.any saysInvalid)) (by decide +kernel)
  rw [Bool.and_eq_true, Option.any_eq_true] at hP
  obtain ⟨⟨u, hu, hadmin⟩, hsays⟩ := hP
  refine ⟨h, sv, sv', u, r, hrun, hu, beq_iff_eq.mp hadmin, hstep, hsays, ?_⟩
  intro hdispatch
  obtain ⟨handled, -, -, -, hvalid⟩ := hdispatch.own
    ⟨lit "shutdown", lit "/shutdown", lit "Disconnect all clients and shutdown the server",
      .shutdown⟩ (by decide) (by decide +kernel)
  obtain ⟨x, hx, hsaid⟩ := List.any_eq_true.mp hsays
  obtain ⟨o, ho, hinvalid⟩ := (Option.any_eq_true _ _).mp hsaid
  rw [hvalid x hx o ho] at hinvalid
  cases hinvalid

end LinuxChat
