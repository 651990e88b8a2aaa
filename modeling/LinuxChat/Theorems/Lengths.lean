import LinuxChat.Logic.Builders
import LinuxChat.Logic.FrameStep

/-!
# Every outgoing length is the real length

Two builders take their length from what a client announced: a chat message
from its text frame, a `UserRemove` from the login that set `name_length`.
Where the frames behind them announce what they bring, every message of every
run has its real length. A text that announces more than it brings is sent
with a length that leaves the message object.
-/

namespace LinuxChat

open CMem Trace

/-- The messages a step hands to `network_Send` or `broadcast_message`. -/
def messages (r : Handled) : List Outgoing := r.out.filterMap Output.outgoing?

theorem mem_messages {r : Handled} {o : Outgoing} :
    o ∈ messages r ↔ ∃ x ∈ r.out, x.outgoing? = some o := List.mem_filterMap

/-- A text that brings the bytes it announces, at most 512 of them and none NUL. -/
def HonestText (f : Frame) : Prop :=
  f.announced ≤ netTextLen ∧ f.data.length = f.announced ∧ 0 ∉ f.data

/-- A login request that brings the bytes it announces, at most 36 of them and no NUL in the
name. -/
def HonestLogin (f : Frame) : Prop :=
  f.announced ≤ 36 ∧ f.data.length = f.announced ∧ 0 ∉ f.name

instance (f : Frame) : Decidable (HonestText f) := inferInstanceAs (Decidable (_ ∧ _ ∧ _))

instance (f : Frame) : Decidable (HonestLogin f) := inferInstanceAs (Decidable (_ ∧ _ ∧ _))

/-- Texts and accepted login requests are honest about their lengths. -/
def honestLengths : Guard Server FrameEvent Handled := fun _ sv ev =>
  match ev with
  | .frame _ f env => (f.code = .receivedMessage → HonestText f) ∧
      (AcceptedLogin sv.users f env → HonestLogin f)
  | _ => True

instance (h : History FrameEvent Handled) (sv : Server) : (ev : FrameEvent) →
    Decidable (honestLengths h sv ev)
  | .connect .. => isTrue trivial
  | .frame _ f env => inferInstanceAs (Decidable ((f.code = .receivedMessage → HonestText f) ∧
      (AcceptedLogin sv.users f env → HonestLogin f)))
  | .disconnect .. => isTrue trivial
  | .deliver => isTrue trivial

/-! ## Stored names -/

/-- The stored length is that of the stored name. -/
def StoredLength (u : User) : Prop :=
  u.nameLength ≤ netNameLen ∧ (cstr (u.name.bytes.take u.nameLength)).length = u.nameLength

/-- An honest login stores its length. -/
theorem storedLength_login {f : Frame} (hcode : f.code = .receivedLogin) (hf : HonestLogin f)
    (u : User) (env : Env) : StoredLength (loggedInAs u f env) := by
  obtain ⟨hfit, hall, hnul⟩ := hf
  have hsize : loginSize f.announced = f.announced - 5 := Frame.loginSize_eq hcode
  have hle : loginSize f.announced ≤ netNameLen := by rw [hsize]; unfold netNameLen; omega
  refine ⟨hle, ?_⟩
  have hstored : cstr ((loggedInAs u f env).name.bytes.take (loginSize f.announced)) = f.name := by
    rw [loggedInAs, User.cstr_take_login (le_trans hle (by decide)),
      Frame.cstr_take_loginMem hcode hfit env, cstr_eq_self hnul]
  show (cstr ((loggedInAs u f env).name.bytes.take (loginSize f.announced))).length = _
  rw [hstored, Frame.length_name, hall]
  exact hsize.symm

theorem run_storedLength {cfg : Config} {h : History FrameEvent Handled} {sv : Server}
    (hrun : Run (frameMachine cfg) honestLengths h sv) {p : UserPtr} {u : User}
    (hu : sv.users.get? p = some u) : StoredLength u := by
  refine run_entry (P := fun _ u => StoredLength u) ?_ ?_ ?_ hrun hu
  · intro thread sock
    exact ⟨Nat.zero_le _, rfl⟩
  · intro h sv p u f env hg _ hacc _
    exact storedLength_login hacc.1 (hg.2 hacc) u env
  · exact fun hu => hu

/-- The `UserAdd` about an entry with its real length has its real length. -/
theorem lengthOk_added {u : User} (hu : u.nameLength ≤ netNameLen) (now : UInt64) (use : Bool) :
    (buildUserAdded .zero now u.name.bytes u.nameLength use).LengthOk := by
  refine lengthOk_userAdded ?_
  unfold netNameLen at hu
  unfold bodySize
  omega

/-! ## Messages of one step -/

/-- The text of an honest frame fills its announced length. -/
theorem length_honestText {f : Frame} (hcode : f.code = .receivedMessage) (hf : HonestText f) :
    (cstr (f.msg.text.take f.announced)).length = f.announced := by
  obtain ⟨hfit, hall, hnul⟩ := hf
  have hbody := Frame.bytes_msg (Frame.code_receivedMessage hcode).1
    (by rw [hall]; exact le_trans hfit (by decide))
  have htext : f.msg.text.take f.announced = f.data := by
    rw [CombinedMessage.text, Buf.slice, hbody, List.drop_zero, List.take_take,
      Nat.min_eq_left hfit, List.take_left' hall]
  rw [htext, cstr_eq_self hnul, hall]

/-- The messages of a command have their real lengths. -/
theorem lengthOk_command {cfg : Config} {env : Env} {u : User} {sv : Server} {m : CombinedMessage}
    {o : Outgoing} (ho : o ∈ messages (handleCommand cfg env u sv m)) : o.LengthOk := by
  have hreply : ∀ text, o ∈ messages (replyOnly cfg env u sv m text) → o.LengthOk := by
    intro text ho
    simp only [messages, replyOnly, List.filterMap_cons, Output.outgoing?, List.filterMap_nil,
      List.mem_singleton] at ho
    rw [ho]
    exact lengthOk_serverResponse cfg m env.now text
  have hall : ∀ o', o ∈ (notifyAll sv.users o').filterMap Output.outgoing? → o = o' := by
    intro o' ho
    simp only [notifyAll, List.filterMap_map, List.mem_filterMap] at ho
    obtain ⟨e, -, he⟩ := ho
    exact (Option.some.inj he).symm
  unfold handleCommand at ho
  split at ho
  · split at ho
    · unfold handleKick at ho
      split at ho
      · simp [messages, Output.outgoing?] at ho
      · exact hreply _ ho
    · unfold handlePause at ho
      split at ho
      · exact hreply _ ho
      · simp only [messages, List.filterMap_cons, Output.outgoing?] at ho
        rw [hall _ ho]
        exact lengthOk_serverResponse ..
    · unfold handleResume at ho
      split at ho
      · simp only [messages, List.filterMap_append, List.filterMap_cons, Output.outgoing?,
          List.filterMap_nil, List.append_nil] at ho
        rw [hall _ ho]
        exact lengthOk_serverResponse ..
      · exact hreply _ ho
    · simp only [messages, handleHelp, List.mem_filterMap, List.mem_map] at ho
      obtain ⟨x, ⟨row, -, rfl⟩, hx⟩ := ho
      rw [← Option.some.inj hx]
      exact lengthOk_serverResponseSpecial ..
    all_goals exact hreply _ ho
  · exact hreply _ ho

/-- The messages of an accepted login have their real lengths. -/
theorem lengthOk_accepted {cfg : Config} {env : Env} {p : UserPtr} {u : User} {sv : Server}
    {f : Frame} (hcode : f.code = .receivedLogin) (hf : HonestLogin f)
    (hsv : ∀ p u, sv.users.get? p = some u → StoredLength u) {o : Outgoing}
    (ho : o ∈ messages (loginAccepted cfg env p u sv f.msg f.announced)) : o.LengthOk := by
  have hstored := fun v => storedLength_login hcode hf v env
  simp only [messages, loginAccepted, List.filterMap_cons, Output.outgoing?, List.filterMap_map,
    List.mem_cons] at ho
  rcases ho with rfl | rfl | ho
  · exact lengthOk_loginResponse cfg .success
  · exact lengthOk_added (hstored u).1 env.now true
  · simp only [List.mem_filterMap, snapshot, List.mem_map, List.mem_filter] at ho
    obtain ⟨_, ⟨⟨q, v⟩, ⟨hv, -⟩, rfl⟩, ho⟩ := ho
    obtain ⟨hq, -⟩ := UserList.mem_loggedInUsers.mp hv
    obtain ⟨w, hw, rfl⟩ := Table.exists_of_get?_modify hq
    rw [← Option.some.inj ho]
    refine lengthOk_added ?_ env.now false
    split
    · exact (hstored w).1
    · exact (hsv q w hw).1

/-- The messages of an allowed step have their real lengths. -/
theorem lengthOk_step {cfg : Config} {h : History FrameEvent Handled} {sv sv' : Server}
    {ev : FrameEvent} {r : Handled} (hsv : ∀ p u, sv.users.get? p = some u → StoredLength u)
    (hg : honestLengths h sv ev) (hstep : frameStep cfg sv ev = some (sv', r)) {o : Outgoing}
    (ho : o ∈ messages r) : o.LengthOk := by
  cases ev with
  | connect p thread sock =>
      simp [messages, (frameStep_connect hstep).2.2.2] at ho
  | deliver => simp [messages, (frameStep_deliver hstep).2] at ho
  | disconnect p status env =>
      obtain ⟨u, hu, -, rfl, -⟩ := frameStep_disconnect hstep
      obtain ⟨hle, hname⟩ := hsv p u hu
      obtain ⟨x, hx, hxo⟩ := mem_messages.mp ho
      simp only [clientTeardown, List.mem_append, List.mem_ite_nil_right, List.mem_map,
        List.mem_singleton] at hx
      rcases hx with ⟨-, e, -, rfl⟩ | rfl
      · rw [← Option.some.inj hxo]
        refine lengthOk_userRemoved ?_ hname
        unfold netNameLen at hle
        unfold bodySize
        omega
      · cases hxo
  | frame p f env =>
      obtain ⟨u, hu, rfl, -⟩ := frameStep_frame hstep
      obtain ⟨x, hx, hxo⟩ := mem_messages.mp ho
      rcases mem_out_frame hx with rfl | rfl | hx
      · cases hxo
      · cases hxo
      have ho := mem_messages.mpr ⟨x, hx, hxo⟩
      cases hcode : f.code with
      | receivedLogin =>
          rw [hcode, handleFrame_login] at ho
          split at ho
          · rename_i hresp
            exact lengthOk_accepted hcode (hg.2 ⟨hcode, hresp⟩) hsv ho
          · simp only [messages, List.filterMap_cons, Output.outgoing?, List.filterMap_nil,
              List.mem_singleton] at ho
            rw [ho]
            exact lengthOk_loginResponse cfg _
      | receivedMessage =>
          have hf := hg.1 hcode
          rw [hcode] at ho
          simp only [messages, handleFrame, handleMessage, List.filterMap_cons, Output.outgoing?,
            List.mem_cons] at ho
          rcases ho with rfl | ho
          · exact lengthOk_serverToClient hf.1 (length_honestText hcode hf)
          · split at ho
            · simp at ho
            · simp only [List.filterMap_cons, Output.outgoing?, List.filterMap_nil,
                List.mem_singleton] at ho
              rw [ho]
              exact lengthOk_serverResponse ..
      | receivedServerCommand =>
          rw [hcode] at ho
          exact lengthOk_command ho
      | _ =>
          rw [hcode] at ho
          simp [messages, handleFrame] at ho

/-- **Every outgoing length is the real length.** In every run whose texts and accepted login
requests are honest about their lengths, every message handed out announces the body its
builder encoded and lies inside the message object. -/
theorem lengthOk_run {cfg : Config} {h : History FrameEvent Handled} {sv : Server}
    (hrun : Run (frameMachine cfg) honestLengths h sv) :
    ∀ e ∈ h, ∀ o ∈ messages e.2, o.LengthOk := by
  induction hrun with
  | init => simp
  | step hrun hg hstep ih =>
      intro e he o ho
      -- An earlier step, or the last one.
      rcases List.mem_append.mp he with he | he
      · exact ih e he o ho
      · rw [List.mem_singleton.mp he] at ho
        exact lengthOk_step (fun p u hu => run_storedLength hrun hu) hg hstep ho

/-- Two clients log in, one speaks and leaves. -/
theorem lengthOk_run_farewell :
    ∃ h sv, Run (frameMachine .default) honestLengths h sv ∧
      (h.flatMap fun e => messages e.2).map (·.builder) =
        [.loginResponse, .userAdded, .loginResponse, .userAdded, .userAdded, .serverToClient,
          .userRemoved] ∧
      ∀ e ∈ h, ∀ o ∈ messages e.2, o.LengthOk := by
  obtain ⟨h, sv, hrun, hsent⟩ := Run.exists_of_replay
    (M := frameMachine .default) (G := honestLengths)
    [.connect 1 1 5, .connect 2 2 6, .frame 1 (.login 8 (lit "bob")) ⟨1, 0, [], []⟩,
      .frame 2 (.login 10 (lit "alice")) ⟨2, 0, [], []⟩,
      .frame 1 (.text 5 (lit "hello")) ⟨1, 0, [], []⟩, .disconnect 1 0 ⟨1, 0, [], []⟩]
    (fun h _ => (h.flatMap fun e => messages e.2).map (·.builder) ==
      [.loginResponse, .userAdded, .loginResponse, .userAdded, .userAdded, .serverToClient,
        .userRemoved]) (by decide +kernel)
  exact ⟨h, sv, hrun, beq_iff_eq.mp hsent, lengthOk_run hrun⟩

/-- A text of three bytes that announces 600 is sent with 643 bytes of a 555-byte message. -/
theorem lengthOk_fails_announced :
    ∃ h sv sv' r, Run (frameMachine .default) anyStep h sv ∧
      frameStep .default sv (.frame 1 (.text 600 (lit "hey")) ⟨1, 0, [], []⟩) = some (sv', r) ∧
      ∃ o ∈ messages r, ¬ o.LengthOk ∧ o.encoded = 43 ∧ o.msg.header.length.toNat = 640 ∧
        combinedSize < headerSize + o.msg.header.length.toNat := by
  obtain ⟨h, sv, sv', r, hrun, -, hstep, hsent⟩ := Run.exists_step_of_replay
    (M := frameMachine .default) (G := anyStep)
    [.connect 1 1 5, .frame 1 (.login 8 (lit "bob")) ⟨1, 0, [], []⟩]
    (.frame 1 (.text 600 (lit "hey")) ⟨1, 0, [], []⟩)
    (fun _ _ _ r => (messages r).any fun o => !decide o.LengthOk && o.encoded == 43 &&
      o.msg.header.length.toNat == 640) (by decide +kernel)
  simp only [List.any_eq_true, Bool.and_eq_true, Bool.not_eq_true', decide_eq_false_iff_not,
    beq_iff_eq] at hsent
  obtain ⟨o, ho, ⟨hbad, henc⟩, hlen⟩ := hsent
  exact ⟨h, sv, sv', r, hrun, hstep, o, ho, hbad, henc, hlen, by rw [hlen]; decide⟩

end LinuxChat
