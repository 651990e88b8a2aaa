import LinuxChat.Logic.FrameStep

/-!
# What the checks see of a name

A login request that brings what it announces: `login_name` is the requested
name and, where the name fills the array, whatever lies behind it on the
stack. What the two checks and `login_User` make of such a request.
-/

namespace LinuxChat

open CMem

/-- A byte `f_Name_has_forbidden_char` lets through. -/
theorem forbiddenChar_eq_false {c : UInt8} : forbiddenChar c = false ↔
    33 ≤ c.toNat ∧ c.toNat ≤ 126 ∧ c ≠ 34 ∧ c ≠ 39 ∧ c ≠ 96 := by
  have hlt := c.toNat_lt
  have hsmall : c < 128 ↔ c.toNat < 128 := UInt8.lt_iff_toNat_lt
  have hne : ∀ d : UInt8, c ≠ d ↔ c.toNat ≠ d.toNat := fun d => UInt8.toNat_inj.not.symm
  rw [hne, hne, hne]
  simp only [forbiddenChar, signedChar, hsmall, Bool.or_eq_false_iff, decide_eq_false_iff_not,
    beq_eq_false_iff_ne, ne_eq, UInt8.reduceToNat]
  split <;> omega

/-- NUL is no byte of a name. -/
theorem forbiddenChar_zero : forbiddenChar 0 = true := rfl

/-- The check of a short string looks at all of it. -/
theorem nameHasForbiddenChar_of_lt {name : List UInt8} (h : (cstr name).length < 0x10000) :
    nameHasForbiddenChar name = (cstr name).any forbiddenChar := by
  have hall : toU16 (cstr name).length = (cstr name).length := by unfold toU16; omega
  rw [nameHasForbiddenChar, hall, List.take_length]

theorem not_forbidden_of_success {l : UserList} {name : List UInt8}
    (h : loginResponse l name = .success) : nameHasForbiddenChar name = false := by
  by_contra hbad
  rw [Bool.not_eq_false] at hbad
  simp [loginResponse, hbad] at h

/-- The entry of an accepted login after it. -/
theorem get?_of_accepted {cfg : Config} {sv sv' : Server} {p : UserPtr} {u : User} {f : Frame}
    {env : Env} {r : Handled} (hu : sv.users.get? p = some u)
    (hstep : frameStep cfg sv (.frame p f env) = some (sv', r))
    (hacc : AcceptedLogin sv.users f env) : sv'.users.get? p = some (loggedInAs u f env) := by
  obtain ⟨v, hv, rfl, rfl⟩ := frameStep_frame hstep
  have husers : (clientPass cfg env p v sv f.received).server.users =
      (handleFrame cfg env p v sv f.code f.msg).server.users := by
    rw [f.received_eq]
    rfl
  rcases handleFrame_users env p v sv f with ⟨-, hmod⟩ | ⟨hno, -⟩
  · rw [husers, hmod, Table.get?_modify_self, hu]
    rfl
  · exact absurd hacc hno

namespace Frame

variable {f : Frame}

/-- The frame brings all the bytes it announces. -/
def Whole (f : Frame) : Prop := f.data.length = f.announced

instance (f : Frame) : Decidable f.Whole := inferInstanceAs (Decidable (_ = _))

/-- `login_name` holds the name up to a NUL, and zeros; behind it lies the stack. -/
theorem loginMem_eq (h : f.code = .receivedLogin) (env : Env) :
    loginMem env f.msg f.announced =
      cstr f.name ++ List.replicate (netNameLen - (cstr f.name).length) 0 ++ env.stack := by
  obtain ⟨-, -, -, -, -, h37⟩ := code_receivedLogin h
  obtain ⟨-, hle, -⟩ := announced_receivedLogin h
  have hlen := length_cstr_le f.name
  have hcopy : strncpy f.msg.authName (f.announced - 5) =
      cstr f.name ++ List.replicate (f.announced - 5 - (cstr f.name).length) 0 := by
    rw [strncpy, cstr_take_authName h]
  have hfits : (cstr f.name).length ≤ netNameLen := by
    rw [length_name] at hlen
    unfold netNameLen
    omega
  rw [loginMem, loginName, loginCopySize_eq h, hcopy, Buf.bytes_write_front, Buf.bytes_zero,
    List.drop_replicate, List.append_assoc, List.replicate_append_replicate, List.take_append,
    List.take_of_length_le hfits, List.take_replicate]
  congr 3
  simp only [List.length_append, List.length_replicate]
  omega

/-- The name of a whole login request is as long as announced, and fits. -/
theorem Whole.announced_eq (hwhole : f.Whole) (h : f.code = .receivedLogin) :
    f.announced = f.name.length + 5 ∧ 0 < f.name.length ∧ f.name.length ≤ netNameLen := by
  obtain ⟨-, -, -, -, h5, h37⟩ := code_receivedLogin h
  unfold Whole at hwhole
  rw [length_name]
  unfold netNameLen
  omega

theorem Whole.announced_le (hwhole : f.Whole) (h : f.code = .receivedLogin) :
    f.announced ≤ 36 := by
  obtain ⟨hsize, -, hle⟩ := hwhole.announced_eq h
  unfold netNameLen at hle
  omega

theorem Whole.loginSize_eq (hwhole : f.Whole) (h : f.code = .receivedLogin) :
    loginSize f.announced = f.name.length := by
  rw [Frame.loginSize_eq h, (hwhole.announced_eq h).1, Nat.add_sub_cancel]

/-- `login_name` and the stack behind it. -/
theorem Whole.loginMem_eq (hwhole : f.Whole) (h : f.code = .receivedLogin) (env : Env) :
    loginMem env f.msg f.announced =
      strncpy f.name f.name.length ++ List.replicate (netNameLen - f.name.length) 0
        ++ env.stack := by
  have hsize := (hwhole.announced_eq h).1
  have hrest : 36 - f.announced = netNameLen - f.name.length := by unfold netNameLen; omega
  have hname : f.msg.authName.take f.name.length = f.name.take f.name.length := by
    rw [authName_msg h, List.take_left' rfl, List.take_length]
  rw [loginMem, bytes_loginName h (hwhole.announced_le h), hrest, hsize, Nat.add_sub_cancel,
    strncpy, strncpy, hname]

/-- A name with a NUL, or one that does not fill the array, is read as it is. -/
theorem Whole.cstr_loginMem_of_lt (hwhole : f.Whole) (h : f.code = .receivedLogin)
    (hlt : (cstr f.name).length < netNameLen) (env : Env) :
    cstr (loginMem env f.msg f.announced) = cstr f.name := by
  have hfit := hwhole.announced_le h
  exact cstr_loginMem h hfit ((loginName_terminated h hfit).mpr hlt) env

/-- A name that fills the array is read on into the stack. -/
theorem Whole.cstr_loginMem_of_full (hwhole : f.Whole) (h : f.code = .receivedLogin)
    (hnul : 0 ∉ f.name) (hfull : f.name.length = netNameLen) (env : Env) :
    cstr (loginMem env f.msg f.announced) = f.name ++ cstr env.stack := by
  have htake : f.name.take f.name.length = f.name := List.take_length
  rw [hwhole.loginMem_eq h, strncpy_of_notMem le_rfl (by rwa [htake]), htake, hfull,
    Nat.sub_self, List.replicate_zero, List.append_nil, cstr_append_of_notMem hnul]

/-- `login_User` stores the name in front of what the buffer held. -/
theorem Whole.cname_loggedInAs (hwhole : f.Whole) (h : f.code = .receivedLogin)
    (hnul : 0 ∉ f.name) (u : User) (env : Env) :
    (loggedInAs u f env).cname = f.name ++ cstr (u.name.bytes.drop f.name.length) := by
  have hsize := hwhole.loginSize_eq h
  have hcopy := cstr_take_loginMem h (hwhole.announced_le h) env
  rw [cstr_eq_self hnul, hsize] at hcopy
  have hstored : strncpy (loginMem env f.msg f.announced) f.name.length = f.name := by
    rw [strncpy, hcopy, Nat.sub_self, List.replicate_zero, List.append_nil]
  rw [loggedInAs, User.cname, hsize,
    User.bytes_login ((hwhole.announced_eq h).2.2.trans (by decide)), hstored,
    cstr_append_of_notMem hnul]

end Frame

end LinuxChat
