import LinuxChat.Logic.LoginNames

/-!
# The answer to a login request

A request with the right magic and all of the 6 to 36 bytes it announces is
owed one answer: version, name and table decide its code, and a refusal
changes nothing. The code keeps to that for version 0, as long as the checks
see the name that was sent (`answersOnce_iff`); a request of another version
gets no answer at all.
-/

namespace LinuxChat

open CMem Trace

namespace Frame

/-- A login request with the right magic and a body of 6 to 36 bytes, as announced. -/
def IsRequest (f : Frame) : Prop :=
  f.header.type = MessageType.loginRequest.code ∧ f.data.take 4 = be32 0x0badf00d ∧
    6 ≤ f.data.length ∧ f.data.length ≤ 36 ∧ f.Whole

instance (f : Frame) : Decidable f.IsRequest :=
  inferInstanceAs (Decidable (_ ∧ _ ∧ _ ∧ _ ∧ _))

/-- The version byte of a request. -/
def version (f : Frame) : UInt8 := f.data.getD 4 0

/-- The code a request is owed. -/
def owedCode (l : UserList) (f : Frame) : LoginResponseCode :=
  if f.version ≠ 0 then .versionMismatch
  else if f.name.any forbiddenChar then .nameInvalid
  else if l.entries.any fun e => e.2.cname == f.name && e.2.loggedIn then .nameTaken
  else .success

/-- A request of version 0 gets to the name checks, any other one is refused before them. -/
theorem IsRequest.code_eq {f : Frame} (hreq : f.IsRequest) :
    f.code = if f.version = 0 then .receivedLogin else .versionInvalid := by
  obtain ⟨htype, hmagic, h6, h36, -⟩ := hreq
  obtain ⟨hbody, hcode⟩ := code_login htype (by omega)
  obtain ⟨hm, hv⟩ := fields_msg hbody (by omega) (by omega)
  have hbyte : (f.data.drop 4).take 1 = [f.version] := by
    have h4 : 4 < f.data.length := by omega
    rw [List.drop_eq_getElem_cons h4, version, List.getD_eq_getElem?_getD,
      List.getElem?_eq_getElem h4]
    rfl
  rw [hbyte, List.cons.injEq, and_iff_left rfl] at hv
  rw [hcode, loginCode, hm.mpr hmagic, if_pos (by omega)]
  by_cases hversion : f.version = 0
  · rw [hv.mpr hversion, if_pos hversion]
    rfl
  · rw [if_neg hversion, if_neg (hv.not.mpr hversion)]

end Frame

/-! ## What a request is owed -/

/-- A `LoginResponse` is sent. -/
def isLoginResponse (x : Output) : Bool :=
  x.outgoing?.any fun o => o.msg.header.type == MessageType.loginResponse.code

/-- A `UserAdd` is sent or queued. -/
def isUserAdd (x : Output) : Bool :=
  x.outgoing?.any fun o => o.msg.header.type == MessageType.userAdd.code

/-- The request is answered once, with the code it is owed; a refusal leaves table, log
registration and queue alone and tells nobody, and a success logs the user in. -/
structure AnswersOnce (cfg : Config) (sv sv' : Server) (p : UserPtr) (u : User) (f : Frame)
    (r : Handled) : Prop where
  once : r.out.filter isLoginResponse =
    [.reply u.sock (buildLoginResponse cfg (f.owedCode sv.users))]
  refused : f.owedCode sv.users ≠ .success → sv'.users = sv.users ∧ sv'.queue = sv.queue ∧
    (∀ thread name, .registerLog thread name ∉ r.out) ∧ ∀ x ∈ r.out, isUserAdd x = false
  accepted : f.owedCode sv.users = .success →
    ∃ u', sv'.users.get? p = some u' ∧ u'.loggedIn = true

/-- The checks see the name that was sent: no NUL hides the end of it, unless a forbidden byte
comes first, and where the name fills `login_name`, the stack behind it does not change what
the two checks say. -/
def ChecksSentName (l : UserList) (f : Frame) (env : Env) : Prop :=
  (0 ∉ f.name ∨ nameHasForbiddenChar f.name = true) ∧
    (0 ∉ f.name → f.name.length = netNameLen →
      nameHasForbiddenChar (f.name ++ env.stack) = nameHasForbiddenChar f.name ∧
        (nameHasForbiddenChar f.name = false →
          l.isNameFree (f.name ++ env.stack) = l.isNameFree f.name))

instance (l : UserList) (f : Frame) (env : Env) : Decidable (ChecksSentName l f env) :=
  inferInstanceAs (Decidable (_ ∧ (_ → _ → _ ∧ (_ → _))))

/-- Both checks read a C string. -/
theorem loginResponse_congr {l : UserList} {a b : List UInt8} (h : cstr a = cstr b) :
    loginResponse l a = loginResponse l b := by
  have hbad : nameHasForbiddenChar a = nameHasForbiddenChar b := by
    rw [nameHasForbiddenChar, nameHasForbiddenChar, h]
  have hfree : l.isNameFree a = l.isNameFree b := by
    rw [UserList.isNameFree, UserList.isNameFree, h]
  unfold loginResponse
  rw [hbad, hfree]

/-- Two names get the same answer if the checks that decide it agree. -/
theorem loginResponse_eq_iff {l : UserList} {a b : List UInt8} :
    loginResponse l a = loginResponse l b ↔
      nameHasForbiddenChar a = nameHasForbiddenChar b ∧
        (nameHasForbiddenChar b = false → l.isNameFree a = l.isNameFree b) := by
  unfold loginResponse
  cases nameHasForbiddenChar a <;> cases nameHasForbiddenChar b <;> cases l.isNameFree a <;>
    cases l.isNameFree b <;> simp

/-- The answer to a name without a NUL, if just that name is checked. -/
theorem owedCode_of_nulFree {l : UserList} {f : Frame} (hversion : f.version = 0)
    (hnul : 0 ∉ f.name) (hlen : f.name.length < 0x10000) :
    f.owedCode l = loginResponse l f.name := by
  have hcstr : cstr f.name = f.name := cstr_eq_self hnul
  have hbad : nameHasForbiddenChar f.name = f.name.any forbiddenChar := by
    rw [nameHasForbiddenChar_of_lt (by rwa [hcstr]), hcstr]
  rw [Frame.owedCode, if_neg (by simpa using hversion), loginResponse, hbad]
  simp only [UserList.isNameFree, hcstr]
  cases f.name.any forbiddenChar <;>
    cases (l.entries.any fun e => e.2.cname == f.name && e.2.loggedIn) <;> rfl

/-- The answer to a name with a NUL among its bytes. -/
theorem owedCode_of_nul {l : UserList} {f : Frame} (hversion : f.version = 0)
    (hnul : 0 ∈ f.name) : f.owedCode l = .nameInvalid := by
  have hbad : f.name.any forbiddenChar = true :=
    List.any_eq_true.mpr ⟨0, hnul, forbiddenChar_zero⟩
  rw [Frame.owedCode, if_neg (by simpa using hversion), if_pos hbad]

/-- The checks give the code that is owed just where they see the name that was sent. -/
theorem loginResponse_eq_owedCode {l : UserList} {f : Frame} (hreq : f.IsRequest)
    (hversion : f.version = 0) (env : Env) :
    loginResponse l (loginMem env f.msg f.announced) = f.owedCode l ↔
      ChecksSentName l f env := by
  have hcode : f.code = .receivedLogin := by rw [hreq.code_eq, if_pos hversion]
  have hwhole := hreq.2.2.2.2
  obtain ⟨-, -, hle⟩ := hwhole.announced_eq hcode
  have hlt : f.name.length < 0x10000 := lt_of_le_of_lt hle (by decide)
  have hlen := length_cstr_le f.name
  by_cases hnul : 0 ∈ f.name
  · -- The checks read up to the NUL.
    have hcstr := length_cstr_lt hnul
    have hmem := hwhole.cstr_loginMem_of_lt hcode (lt_of_lt_of_le hcstr hle) env
    rw [owedCode_of_nul hversion hnul, loginResponse_congr hmem]
    constructor
    · intro hinvalid
      refine ⟨.inr ?_, fun hno => absurd hnul hno⟩
      by_contra hgood
      unfold loginResponse at hinvalid
      rw [if_neg hgood] at hinvalid
      revert hinvalid
      cases l.isNameFree f.name <;> decide
    · rintro ⟨hbad, -⟩
      rw [loginResponse, if_pos (hbad.resolve_left (not_not_intro hnul))]
  · rw [owedCode_of_nulFree hversion hnul hlt]
    have hcstr : cstr f.name = f.name := cstr_eq_self hnul
    rcases Nat.eq_or_lt_of_le hle with hfull | hshort
    · -- The checks read on behind the array.
      have hmem : cstr (loginMem env f.msg f.announced) = cstr (f.name ++ env.stack) := by
        rw [hwhole.cstr_loginMem_of_full hcode hnul hfull, cstr_append_of_notMem hnul]
      rw [loginResponse_congr hmem, loginResponse_eq_iff]
      exact ⟨fun h => ⟨.inl hnul, fun _ _ => h⟩, fun h => h.2 hnul hfull⟩
    · have hmem := hwhole.cstr_loginMem_of_lt hcode (by rwa [hcstr]) env
      rw [loginResponse_congr hmem]
      exact ⟨fun _ => ⟨.inl hnul, fun _ hfull => absurd hfull hshort.ne⟩, fun _ => rfl⟩

/-! ## What the code does -/

variable {cfg : Config} {sv sv' : Server} {p : UserPtr} {u : User} {f : Frame} {env : Env}
  {r : Handled}

theorem buildLoginResponse_inj {c c' : LoginResponseCode}
    (h : buildLoginResponse cfg c = buildLoginResponse cfg c') : c = c' := by
  have hslice := congrArg (fun o => o.msg.body.slice 4 1) h
  simp only [slice_code_loginResponse, List.cons.injEq, and_true] at hslice
  revert hslice
  cases c <;> cases c' <;> decide

/-- A request that gets to the name checks is answered once, with the code they give. -/
theorem answers_login (hcode : f.code = .receivedLogin) :
    (clientPass cfg env p u sv f.received).out.filter isLoginResponse =
      [.reply u.sock
        (buildLoginResponse cfg (loginResponse sv.users (loginMem env f.msg f.announced)))] := by
  rw [filter_out_frame env p u sv f (fun _ => rfl) (fun _ => rfl), hcode, handleFrame_login]
  split
  · rename_i hsuccess
    rw [hsuccess]
    -- What the newcomer is told about the others are no login responses.
    have hsnapshot : ∀ l : UserList,
        ((snapshot env.now l p).map (Output.reply u.sock)).filter isLoginResponse = [] := by
      intro l
      rw [List.filter_eq_nil_iff]
      intro x hx
      obtain ⟨o, ho, rfl⟩ := List.mem_map.mp hx
      obtain ⟨e, -, rfl⟩ := List.mem_map.mp ho
      exact Bool.false_ne_true
    simp only [loginAccepted, List.filter_cons, hsnapshot]
    rfl
  · rfl

/-- A refused name changes nothing and is told to nobody else. -/
theorem refuses_login (hcode : f.code = .receivedLogin)
    (hno : loginResponse sv.users (loginMem env f.msg f.announced) ≠ .success) :
    (clientPass cfg env p u sv f.received).server = sv ∧
      (∀ thread name, .registerLog thread name ∉ (clientPass cfg env p u sv f.received).out) ∧
        ∀ x ∈ (clientPass cfg env p u sv f.received).out, isUserAdd x = false := by
  have hout : ∀ x ∈ (clientPass cfg env p u sv f.received).out, x = .recv u.sock ∨
      x = .read u.sock ∨ ∃ c, x = .reply u.sock (buildLoginResponse cfg c) := by
    intro x hx
    rcases mem_out_frame hx with hx | hx | hx
    · exact .inl hx
    · exact .inr (.inl hx)
    · rw [hcode, handleFrame_login, if_neg hno] at hx
      exact .inr (.inr ⟨_, List.mem_singleton.mp hx⟩)
  refine ⟨?_, ?_, ?_⟩
  · rw [f.received_eq, hcode]
    simp only [clientPass, handleFrame_login, if_neg hno]
  · intro thread name hx
    rcases hout _ hx with h | h | ⟨c, h⟩ <;> cases h
  · intro x hx
    rcases hout x hx with rfl | rfl | ⟨c, rfl⟩ <;> rfl

/-- A request of another version is not answered. -/
theorem silent_version (hcode : f.code = .versionInvalid) :
    (clientPass cfg env p u sv f.received).out.filter isLoginResponse = [] := by
  rw [filter_out_frame env p u sv f (fun _ => rfl) (fun _ => rfl), hcode]
  rfl

/-- **Every request is answered once.** Whatever the table, a login request with the right magic
and all of its 6 to 36 bytes gets exactly the answer it is owed, and a refusal changes nothing,
if and only if its version is 0 and the checks see the name that was sent. -/
theorem answersOnce_iff (hreq : f.IsRequest) (hu : sv.users.get? p = some u)
    (hstep : frameStep cfg sv (.frame p f env) = some (sv', r)) :
    AnswersOnce cfg sv sv' p u f r ↔ f.version = 0 ∧ ChecksSentName sv.users f env := by
  obtain ⟨v, hv, rfl, rfl⟩ := frameStep_frame hstep
  rw [hu, Option.some.injEq] at hv
  subst hv
  by_cases hversion : f.version = 0
  · have hcode : f.code = .receivedLogin := by rw [hreq.code_eq, if_pos hversion]
    rw [and_iff_right hversion, ← loginResponse_eq_owedCode hreq hversion env]
    constructor
    · rintro ⟨honce, -, -⟩
      rw [answers_login hcode, List.cons.injEq, Output.reply.injEq] at honce
      exact buildLoginResponse_inj honce.1.2
    · intro howed
      constructor
      · rw [answers_login hcode, howed]
      · intro hno
        rw [← howed] at hno
        obtain ⟨hsv, hlog, hadd⟩ := @refuses_login cfg sv p u f env hcode hno
        exact ⟨by rw [hsv], by rw [hsv], hlog, hadd⟩
      · intro hsuccess
        exact ⟨_, get?_of_accepted hu hstep ⟨hcode, howed.trans hsuccess⟩, rfl⟩
  · have hcode : f.code = .versionInvalid := by rw [hreq.code_eq, if_neg hversion]
    constructor
    · rintro ⟨honce, -, -⟩
      rw [silent_version hcode] at honce
      cases honce
    · intro h
      exact absurd h.1 hversion

/-- A client asks for a name that is taken, among others who are logged in. -/
theorem answersOnce_taken :
    ∃ sv sv' u r, sv.users.get? 2 = some u ∧
      frameStep .default sv (.frame 2 (.login 8 (lit "bob")) ⟨2, 0, [], []⟩) = some (sv', r) ∧
      (Frame.login 8 (lit "bob")).owedCode sv.users = .nameTaken ∧
      AnswersOnce .default sv sv' 2 u (.login 8 (lit "bob")) r := by
  obtain ⟨h, sv, sv', r, -, -, hstep, hP⟩ := Run.exists_step_of_replay
    (M := frameMachine .default) (G := anyStep)
    [.connect 1 1 5, .frame 1 (.login 8 (lit "bob")) ⟨1, 0, [], []⟩, .connect 2 2 6]
    (.frame 2 (.login 8 (lit "bob")) ⟨2, 0, [], []⟩)
    (fun _ sv _ _ => (sv.users.get? 2).isSome &&
      decide ((Frame.login 8 (lit "bob")).owedCode sv.users = .nameTaken) &&
      decide (ChecksSentName sv.users (.login 8 (lit "bob")) ⟨2, 0, [], []⟩)) (by decide +kernel)
  rw [Bool.and_eq_true, Bool.and_eq_true, decide_eq_true_eq, decide_eq_true_eq] at hP
  obtain ⟨⟨hsome, howed⟩, hsees⟩ := hP
  obtain ⟨u, hu⟩ := Option.isSome_iff_exists.mp hsome
  exact ⟨sv, sv', u, r, hu, hstep, howed,
    (answersOnce_iff (by decide +kernel) hu hstep).mpr ⟨by decide +kernel, hsees⟩⟩

/-- A login request of version 1. -/
def versionOne : Frame :=
  ⟨⟨MessageType.loginRequest.code, 8⟩, some (be32 0x0badf00d ++ [1] ++ lit "bob")⟩

/-- A request of version 1 is owed `LR_version_mismatch` and gets nothing; only the flag of its
client is set. -/
theorem version_not_answered :
    ∃ h sv sv' u r, Run (frameMachine .default) anyStep h sv ∧ versionOne.IsRequest ∧
      sv.users.get? 1 = some u ∧
      frameStep .default sv (.frame 1 versionOne ⟨1, 0, [], []⟩) = some (sv', r) ∧
      versionOne.owedCode sv.users = .versionMismatch ∧ r.out = [.recv 5, .read 5] ∧
      sv'.users.get? 1 = some u.flag ∧ ¬ AnswersOnce .default sv sv' 1 u versionOne r := by
  obtain ⟨h, sv, sv', r, hrun, -, hstep, hP⟩ := Run.exists_step_of_replay
    (M := frameMachine .default) (G := anyStep) [.connect 1 1 5]
    (.frame 1 versionOne ⟨1, 0, [], []⟩)
    (fun _ sv sv' r => (sv.users.get? 1).isSome &&
      decide (sv'.users.get? 1 = (sv.users.get? 1).map User.flag) &&
      decide (r.out = [.recv 5, .read 5])) (by decide +kernel)
  rw [Bool.and_eq_true, Bool.and_eq_true, decide_eq_true_eq, decide_eq_true_eq] at hP
  obtain ⟨⟨hsome, hflag⟩, hout⟩ := hP
  obtain ⟨u, hu⟩ := Option.isSome_iff_exists.mp hsome
  refine ⟨h, sv, sv', u, r, hrun, by decide +kernel, hu, hstep, rfl, hout,
    by rw [hflag, hu]; rfl, ?_⟩
  intro hanswers
  have honce := hanswers.once
  rw [hout] at honce
  cases honce

end LinuxChat
