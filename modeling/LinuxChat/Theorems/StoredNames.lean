import LinuxChat.Logic.LoginNames

/-!
# The stored name

A login copies as many bytes as it announces, behind a check that reads a C
string, into a buffer that is not cleared. An accepted login stores exactly
its name if it brings what it announces, holds no NUL, ends in front of a NUL
of the old name, and, where it fills `login_name`, holds no forbidden byte
(`storesExactly_iff`); where every login does, every logged-in entry holds the
name of its client's latest login.
-/

namespace LinuxChat

open CMem Trace

/-- The entry holds this name and nothing else: all of it, its length, and bytes a name may
have. -/
structure HoldsName (u : User) (name : List UInt8) : Prop where
  stored : u.cname = name
  length : u.nameLength = u.cname.length
  pos : 1 ≤ u.nameLength
  le : u.nameLength ≤ 31
  allowed : ∀ c ∈ u.cname, 33 ≤ c.toNat ∧ c.toNat ≤ 126 ∧ c ≠ 34 ∧ c ≠ 39 ∧ c ≠ 96

/-- An accepted login stores exactly its name: it brings all it announces, has no NUL, leaves
nothing of the old name behind it, and has no forbidden byte if it fills `login_name`, whose
check then reads on behind the array. -/
def StoresExactly (u : User) (f : Frame) : Prop :=
  f.Whole ∧ 0 ∉ f.name ∧ cstr (u.name.bytes.drop f.name.length) = [] ∧
    (f.name.length = netNameLen → f.name.any forbiddenChar = false)

instance (u : User) (f : Frame) : Decidable (StoresExactly u f) :=
  inferInstanceAs (Decidable (_ ∧ _ ∧ _ ∧ (_ → _)))

/-- The bytes of an accepted name are bytes a name may have. -/
theorem allowed_of_accepted {l : UserList} {f : Frame} {env : Env} (hacc : AcceptedLogin l f env)
    (hwhole : f.Whole) (hnul : 0 ∉ f.name)
    (hfull : f.name.length = netNameLen → f.name.any forbiddenChar = false) :
    f.name.any forbiddenChar = false := by
  obtain ⟨hcode, hresp⟩ := hacc
  obtain ⟨-, -, hle⟩ := hwhole.announced_eq hcode
  rcases Nat.eq_or_lt_of_le hle with heq | hlt
  · exact hfull heq
  · -- A shorter name is what the check has read.
    have hcstr : cstr f.name = f.name := cstr_eq_self hnul
    have hmem := hwhole.cstr_loginMem_of_lt hcode (by rwa [hcstr]) env
    have hcheck := not_forbidden_of_success hresp
    rw [nameHasForbiddenChar_of_lt, hmem, hcstr] at hcheck
    · exact hcheck
    · rw [hmem, hcstr]
      exact lt_of_lt_of_le hlt (by decide)

/-- An accepted login leaves exactly its name behind just where the four conditions hold. -/
theorem holdsName_loggedInAs {l : UserList} {u : User} {f : Frame} {env : Env}
    (hacc : AcceptedLogin l f env) :
    HoldsName (loggedInAs u f env) f.name ↔ StoresExactly u f := by
  have hsize : (loggedInAs u f env).nameLength = f.announced - 5 := Frame.loginSize_eq hacc.1
  constructor
  · intro hholds
    have hnul : 0 ∉ f.name := hholds.stored ▸ zero_notMem_cstr _
    have hwhole : f.Whole := by
      obtain ⟨hann, -, -⟩ := Frame.announced_receivedLogin hacc.1
      have hlen := hholds.length
      rw [hsize, hholds.stored, Frame.length_name] at hlen
      unfold Frame.Whole
      omega
    refine ⟨hwhole, hnul, ?_, fun _ => ?_⟩
    · have hcname := hwhole.cname_loggedInAs hacc.1 hnul u env
      rw [hholds.stored] at hcname
      exact List.append_cancel_left (hcname.symm.trans (List.append_nil _).symm)
    · rw [List.any_eq_false]
      intro c hc
      rw [← hholds.stored] at hc
      simpa using forbiddenChar_eq_false.mpr (hholds.allowed c hc)
  · rintro ⟨hwhole, hnul, htail, hfull⟩
    obtain ⟨hann, hpos, hle⟩ := hwhole.announced_eq hacc.1
    have hcname : (loggedInAs u f env).cname = f.name := by
      rw [hwhole.cname_loggedInAs hacc.1 hnul, htail, List.append_nil]
    have hlength : (loggedInAs u f env).nameLength = f.name.length := by rw [hsize]; omega
    constructor
    · exact hcname
    · rw [hlength, hcname]
    · rw [hlength]
      exact hpos
    · rw [hlength]
      exact hle
    · intro c hc
      rw [hcname] at hc
      have hany := allowed_of_accepted hacc hwhole hnul hfull
      rw [List.any_eq_false] at hany
      exact forbiddenChar_eq_false.mp (by simpa using hany c hc)

/-- Every accepted login stores exactly its name. -/
def exactLogins : Guard Server FrameEvent Handled := fun _ sv ev =>
  match ev with
  | .frame p f env => ∀ u ∈ sv.users.get? p, AcceptedLogin sv.users f env → StoresExactly u f
  | _ => True

instance (h : History FrameEvent Handled) (sv : Server) : (ev : FrameEvent) →
    Decidable (exactLogins h sv ev)
  | .connect .. => isTrue trivial
  | .frame p f env => inferInstanceAs (Decidable
      (∀ u ∈ sv.users.get? p, AcceptedLogin sv.users f env → StoresExactly u f))
  | .disconnect .. => isTrue trivial
  | .deliver => isTrue trivial

/-- A logged-in entry holds the name of its client's latest login. -/
def HoldsLatest (last : Option (List UInt8)) (u : User) : Prop :=
  u.loggedIn = true → ∃ name, last = some name ∧ HoldsName u name

theorem run_holdsLatest {cfg : Config} {h : History FrameEvent Handled} {sv : Server}
    (hrun : Run (frameMachine cfg) exactLogins h sv) {p : UserPtr} {u : User}
    (hu : sv.users.get? p = some u) : HoldsLatest (lastLogin h p) u := by
  refine run_entry (P := HoldsLatest) ?_ ?_ ?_ hrun hu
  · intro thread sock hin
    cases hin
  · intro h sv p u f env hg hu hacc _ _
    exact ⟨f.name, rfl, (holdsName_loggedInAs hacc).mpr (hg u hu hacc)⟩
  · intro last u hu hin
    obtain ⟨name, hname, hholds⟩ := hu hin
    exact ⟨name, hname, ⟨hholds.stored, hholds.length, hholds.pos, hholds.le, hholds.allowed⟩⟩

/-- **The name a login stores.** Whatever the table and the entry, a login request answered with
`LR_success` leaves exactly its name in the entry if and only if it meets the four conditions;
and in every run whose accepted logins meet them, every logged-in entry holds exactly the name
of its client's latest login. -/
theorem storesExactly_iff {cfg : Config} :
    (∀ {sv sv' : Server} {p : UserPtr} {u : User} {f : Frame} {env : Env} {r : Handled},
      sv.users.get? p = some u → frameStep cfg sv (.frame p f env) = some (sv', r) →
      answeredSuccess r = true →
      ((∃ u', sv'.users.get? p = some u' ∧ HoldsName u' f.name) ↔ StoresExactly u f)) ∧
    ∀ {h : History FrameEvent Handled} {sv : Server}, Run (frameMachine cfg) exactLogins h sv →
      ∀ {p : UserPtr} {u : User}, sv.users.get? p = some u → u.loggedIn = true →
        ∃ name, lastLogin h p = some name ∧ HoldsName u name := by
  constructor
  · intro sv sv' p u f env r hu hstep hanswer
    have hacc := (answeredSuccess_iff hstep).mp hanswer
    rw [get?_of_accepted hu hstep hacc, ← holdsName_loggedInAs hacc]
    constructor
    · rintro ⟨u', hu', hholds⟩
      rwa [← Option.some.inj hu'] at hholds
    · intro hholds
      exact ⟨_, rfl, hholds⟩
  · intro h sv hrun p u hu hin
    exact run_holdsLatest hrun hu hin

/-- A client logs in as `bob` and then as `robert`. -/
theorem storesExactly_robert :
    ∃ h sv u, Run (frameMachine .default) exactLogins h sv ∧ sv.users.get? 1 = some u ∧
      u.loggedIn = true ∧ u.cname = lit "robert" ∧
      ∃ name, lastLogin h 1 = some name ∧ HoldsName u name := by
  obtain ⟨h, sv, hrun, hP⟩ := Run.exists_of_replay (M := frameMachine .default)
    (G := exactLogins)
    [.connect 1 1 5, .frame 1 (.login 8 (lit "bob")) ⟨1, 0, [], []⟩,
      .frame 1 (.login 11 (lit "robert")) ⟨1, 0, [], []⟩]
    (fun _ sv => (sv.users.get? 1).any fun u => u.loggedIn && u.cname == lit "robert")
    (by decide +kernel)
  obtain ⟨u, hu, hP⟩ := (Option.any_eq_true _ _).mp hP
  rw [Bool.and_eq_true, beq_iff_eq] at hP
  exact ⟨h, sv, u, hrun, hu, hP.1, hP.2, storesExactly_iff.2 hrun hu hP.1⟩

/-- A client logs in as `alice` and then as `bob`, both with `LR_success`: its entry is left
with `bobce` and the length 3. -/
theorem stored_after_shorter :
    ∃ h sv sv' u' r, Run (frameMachine .default) anyStep h sv ∧
      frameStep .default sv (.frame 1 (.login 8 (lit "bob")) ⟨1, 0, [], []⟩) = some (sv', r) ∧
      answeredSuccess r = true ∧ sv'.users.get? 1 = some u' ∧ u'.loggedIn = true ∧
      u'.cname = lit "bobce" ∧ u'.nameLength = 3 ∧
      ¬ HoldsName u' (Frame.login 8 (lit "bob")).name := by
  obtain ⟨h, sv, sv', r, hrun, -, hstep, hP⟩ := Run.exists_step_of_replay
    (M := frameMachine .default) (G := anyStep)
    [.connect 1 1 5, .frame 1 (.login 10 (lit "alice")) ⟨1, 0, [], []⟩]
    (.frame 1 (.login 8 (lit "bob")) ⟨1, 0, [], []⟩)
    (fun _ _ sv' r => answeredSuccess r && (sv'.users.get? 1).any fun u =>
      u.loggedIn && u.cname == lit "bobce" && u.nameLength == 3) (by decide +kernel)
  rw [Bool.and_eq_true, Option.any_eq_true] at hP
  obtain ⟨hanswer, u', hu', hP⟩ := hP
  rw [Bool.and_eq_true, Bool.and_eq_true, beq_iff_eq, beq_iff_eq] at hP
  obtain ⟨⟨hin, hname⟩, hlength⟩ := hP
  refine ⟨h, sv, sv', u', r, hrun, hstep, hanswer, hu', hin, hname, hlength, ?_⟩
  intro hholds
  have hlen := hholds.length
  rw [hlength, hname] at hlen
  exact absurd hlen (by decide)

end LinuxChat
