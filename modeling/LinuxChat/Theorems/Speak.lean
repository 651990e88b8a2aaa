import LinuxChat.Logic.Builders
import LinuxChat.Logic.FrameStep

/-!
# Who may speak

The message case of the switch does not ask whether its client is logged in.
Where clients send texts only after an accepted login, each chat message goes
out under the name of its client's latest login (`LoggedInName`); a text
before any login goes out under an empty name.
-/

namespace LinuxChat

open CMem Trace

/-- The chat messages a step puts on the queue. -/
def chats (r : Handled) : List Outgoing :=
  r.out.filterMap fun
    | .enqueue o true => if o.builder = .serverToClient then some o else none
    | _ => none

theorem mem_chats {r : Handled} {o : Outgoing} :
    o ∈ chats r ↔ Output.enqueue o true ∈ r.out ∧ o.builder = .serverToClient := by
  simp only [chats, List.mem_filterMap]
  constructor
  · rintro ⟨x, hx, hsome⟩
    split at hsome
    · split at hsome
      · rename_i hchat
        cases hsome
        exact ⟨hx, hchat⟩
      · cases hsome
    · cases hsome
  · rintro ⟨hx, hchat⟩
    exact ⟨_, hx, by simp [hchat]⟩

/-- Texts come only from clients that have had a login request accepted; an accepted request
fits into `login_name` and carries a name that is not empty. -/
def speaksAfterLogin : Guard Server FrameEvent Handled := fun h sv ev =>
  match ev with
  | .frame p f env => (f.code = .receivedMessage → (lastLogin h p).isSome = true) ∧
      (AcceptedLogin sv.users f env → f.announced ≤ 36 ∧ cstr f.name ≠ [])
  | _ => True

instance (h : History FrameEvent Handled) (sv : Server) : (ev : FrameEvent) →
    Decidable (speaksAfterLogin h sv ev)
  | .connect .. => isTrue trivial
  | .frame _ f env => inferInstanceAs (Decidable ((f.code = .receivedMessage → _) ∧
      (AcceptedLogin sv.users f env → _ ∧ _ ≠ _)))
  | .disconnect .. => isTrue trivial
  | .deliver => isTrue trivial

/-- An entry whose client has logged in is logged in under that name. -/
def LoggedInName (last : Option (List UInt8)) (u : User) : Prop :=
  ∀ name, last = some name → u.loggedIn = true ∧ cstr name ≠ [] ∧
    u.nameLength ≤ netNameLen ∧ cstr (u.name.bytes.take u.nameLength) = cstr name

theorem run_loggedInName {cfg : Config} {h : History FrameEvent Handled} {sv : Server}
    (hrun : Run (frameMachine cfg) speaksAfterLogin h sv) {p : UserPtr} {u : User}
    (hu : sv.users.get? p = some u) : LoggedInName (lastLogin h p) u := by
  refine run_entry (P := LoggedInName) ?_ ?_ ?_ hrun hu
  · rintro thread sock name ⟨⟩
  -- A login sets name, length and login status together.
  · rintro h sv p u f env hg hu hacc - name ⟨⟩
    obtain ⟨hfit, hname⟩ := hg.2 hacc
    have hsize : loginSize f.announced = f.announced - 5 := Frame.loginSize_eq hacc.1
    have hle : loginSize f.announced ≤ netNameLen := by rw [hsize]; unfold netNameLen; omega
    refine ⟨rfl, hname, hle, ?_⟩
    exact (User.cstr_take_login (le_trans hle (by decide))).trans
      (Frame.cstr_take_loginMem hacc.1 hfit env)
  · exact fun hu => hu

/-- Chat messages come from the message case alone. -/
theorem chat_of_mem {cfg : Config} {env : Env} {p : UserPtr} {u : User} {sv : Server}
    {f : Frame} {o : Outgoing} (ho : o ∈ chats (clientPass cfg env p u sv f.received)) :
    f.code = .receivedMessage ∧
      o = buildServerToClient f.msg env.now f.announced u.name.bytes u.nameLength := by
  obtain ⟨hout, hchat⟩ := mem_chats.mp ho
  rcases mem_out_frame hout with h | h | hout
  · cases h
  · cases h
  cases hcode : f.code with
  | receivedMessage =>
      rw [hcode] at hout
      simp only [handleFrame, handleMessage, List.mem_cons, Output.enqueue.injEq] at hout
      rcases hout with ⟨rfl, -⟩ | hout
      · exact ⟨rfl, rfl⟩
      · split at hout <;> simp at hout
  | receivedLogin =>
      rw [hcode, handleFrame_login] at hout
      split at hout
      · simp only [loginAccepted, List.mem_cons, Output.enqueue.injEq, reduceCtorEq,
          List.mem_map, and_false, exists_false, or_false, false_or] at hout
        rw [hout.1] at hchat
        cases hchat
      · simp at hout
  | receivedServerCommand =>
      rw [hcode] at hout
      simp only [handleFrame, handleCommand] at hout
      split at hout
      · split at hout
        · unfold handleKick at hout
          split at hout <;> simp [replyOnly] at hout
        · unfold handlePause at hout
          split at hout <;> simp [replyOnly, notifyAll] at hout
        · unfold handleResume at hout
          split at hout <;> simp [replyOnly, notifyAll] at hout
        · simp [handleHelp] at hout
        all_goals simp [replyOnly] at hout
      · simp [replyOnly] at hout
  | _ =>
      rw [hcode] at hout
      simp [handleFrame] at hout

/-- **Who speaks has logged in.** Where texts come only after an accepted login, every chat
message put on the queue comes from a client that is logged in, under the name of its latest
login. -/
theorem speaker_loggedIn {cfg : Config} {h : History FrameEvent Handled} {sv sv' : Server}
    (hrun : Run (frameMachine cfg) speaksAfterLogin h sv) {p : UserPtr} {f : Frame} {env : Env}
    (hg : speaksAfterLogin h sv (.frame p f env)) {r : Handled}
    (hstep : frameStep cfg sv (.frame p f env) = some (sv', r)) {o : Outgoing}
    (ho : o ∈ chats r) :
    (∃ u, sv.users.get? p = some u ∧ u.loggedIn = true) ∧
      ∃ name, lastLogin h p = some name ∧ cstr name ≠ [] ∧
        cstr o.msg.originalSender = cstr name := by
  obtain ⟨u, hu, rfl, -⟩ := frameStep_frame hstep
  obtain ⟨hcode, rfl⟩ := chat_of_mem ho
  obtain ⟨name, hname⟩ := Option.isSome_iff_exists.mp (hg.1 hcode)
  obtain ⟨hin, hne, hle, hstored⟩ := run_loggedInName hrun hu name hname
  refine ⟨⟨u, hu, hin⟩, name, hname, hne, ?_⟩
  rw [cstr_originalSender (le_trans hle (by decide)), hstored]

/-- A client logs in and says something. -/
theorem speaker_loggedIn_hello :
    ∃ h sv r o, Run (frameMachine .default) speaksAfterLogin h sv ∧ o ∈ chats r ∧
      ∃ name, lastLogin h 1 = some name ∧ cstr name ≠ [] ∧
        cstr o.msg.originalSender = cstr name := by
  obtain ⟨h, sv, sv', r, hrun, hg, hstep, hsaid⟩ := Run.exists_step_of_replay
    (M := frameMachine .default) (G := speaksAfterLogin)
    [.connect 1 1 5, .frame 1 (.login 8 (lit "bob")) ⟨1, 0, [], []⟩]
    (.frame 1 (.text 5 (lit "hello")) ⟨1, 0, [], []⟩)
    (fun _ _ _ r => chats r != []) (by decide +kernel)
  obtain ⟨o, ho⟩ := List.exists_mem_of_ne_nil _ (bne_iff_ne.mp hsaid)
  exact ⟨h, sv, r, o, hrun, ho, (speaker_loggedIn hrun hg hstep ho).2⟩

/-- A text before any login goes out too, from nobody. -/
theorem speaker_not_loggedIn :
    ∃ h sv sv' r, Run (frameMachine .default) anyStep h sv ∧
      frameStep .default sv (.frame 1 (.text 5 (lit "hello")) ⟨1, 0, [], []⟩) = some (sv', r) ∧
      (sv.users.get? 1).map (·.loggedIn) = some false ∧ lastLogin h 1 = none ∧
      (chats r).map (fun o => cstr o.msg.originalSender) = [[]] := by
  obtain ⟨h, sv, sv', r, hrun, -, hstep, hP⟩ := Run.exists_step_of_replay
    (M := frameMachine .default) (G := anyStep) [.connect 1 1 5]
    (.frame 1 (.text 5 (lit "hello")) ⟨1, 0, [], []⟩)
    (fun h sv _ r => (sv.users.get? 1).map (·.loggedIn) == some false && lastLogin h 1 == none &&
      (chats r).map (fun o => cstr o.msg.originalSender) == [[]]) (by decide +kernel)
  rw [Bool.and_eq_true, Bool.and_eq_true, beq_iff_eq, beq_iff_eq, beq_iff_eq] at hP
  exact ⟨h, sv, sv', r, hrun, hstep, hP.1.1, hP.1.2, hP.2⟩

end LinuxChat
