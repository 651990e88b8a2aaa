import LinuxChat.Model.Frames

/-!
# What a frame brings

The receiving half of the loop, evaluated once and for all on a frame: its
code, message and read count as functions of the frame (`Frame.received_eq`),
and what the login copies make of the name it carries
(`cstr_take_loginMem`). Nothing after this unfolds `receive`.
-/

namespace LinuxChat

open CMem ByteStream

namespace Frame

/-- The body length a frame announces in its header. -/
def announced (f : Frame) : Nat := f.header.length.toNat

/-- What `read` delivers: at most what was asked for. -/
def result (f : Frame) : Option (List UInt8) := f.body.map (·.take f.announced)

/-- The bytes `read` stores in the body. -/
def data (f : Frame) : List UInt8 := stored f.result

/-- The name bytes of a login request, as far as they came. -/
def name (f : Frame) : List UInt8 := f.data.drop 5

/-- The message after `network_Receive`. -/
def msg (f : Frame) : CombinedMessage where
  header := f.header
  body := if readsBody f.header then (Buf.zero bodySize).write 0 f.data else Buf.zero bodySize

/-- `bytes_Read`: what `read` returns, and 0 where nothing is read. -/
def count (f : Frame) : Int := if readsBody f.header then returned f.result else 0

/-- The code `network_Receive` returns for a frame. -/
def code (f : Frame) : NetworkValidationCode :=
  if f.announced = 0 then .invalidLength
  else if f.header.type = MessageType.loginRequest.code then loginCode f.msg f.count
  else if f.header.type = MessageType.clientToServer.code then textCode f.msg f.count
  else .zero

theorem announced_lt (f : Frame) : f.announced < 0x10000 := f.header.length.toNat_lt

theorem data_of_none {f : Frame} (hb : f.body = none) : f.data = [] := by
  simp [data, result, stored, hb]

theorem data_of_some {f : Frame} {d : List UInt8} (hb : f.body = some d) :
    f.data = d.take f.announced := by
  simp [data, result, stored, hb]

theorem length_data_le (f : Frame) : f.data.length ≤ f.announced := by
  cases hb : f.body with
  | none => rw [data_of_none hb]; exact Nat.zero_le _
  | some d => rw [data_of_some hb]; exact List.length_take_le _ _

theorem returned_of_some {f : Frame} {d : List UInt8} (hb : f.body = some d) :
    returned f.result = f.data.length := by
  rw [data_of_some hb, result, hb]
  rfl

theorem returned_result (f : Frame) :
    returned f.result = -1 ∨ returned f.result = f.data.length := by
  cases hb : f.body with
  | none => exact .inl (by rw [result, hb]; rfl)
  | some d => exact .inr (returned_of_some hb)

/-- A read that failed brought nothing. -/
theorem data_of_failed {f : Frame} (h : returned f.result = -1) : f.data = [] := by
  cases hb : f.body with
  | none => exact data_of_none hb
  | some d =>
      rw [returned_of_some hb] at h
      omega

theorem length_data_of_returned {f : Frame} (h : 0 ≤ returned f.result) :
    (f.data.length : Int) = returned f.result := by
  rcases f.returned_result with h' | h' <;> omega

theorem readsBody_iff {hdr : MessageHeader} :
    readsBody hdr = true ↔ hdr.length.toNat ≠ 0 ∧
      (hdr.type = MessageType.loginRequest.code ∨ hdr.type = MessageType.clientToServer.code) := by
  have : hdr.length ≠ 0 ↔ hdr.length.toNat ≠ 0 := by
    rw [ne_eq, ← UInt16.toNat_inj]; rfl
  simp [readsBody, this]

/-- `network_Receive` on any supply: the frame of the header and of what the read brings. -/
theorem networkReceive_eq {σ : Type} {src : Source σ} {s : σ} {f : Frame}
    (hask : (src.ask f.announced s).1 = f.result) :
    networkReceive src { CombinedMessage.zero with header := f.header } s =
      (f.code, f.msg, f.count, if readsBody f.header then (src.ask f.announced s).2 else s) := by
  rw [announced] at hask ⊢
  obtain ⟨s', hs'⟩ : ∃ s', (src.ask f.header.length.toNat s).2 = s' := ⟨_, rfl⟩
  have hpair : src.ask f.header.length.toNat s = (f.result, s') := Prod.ext hask hs'
  rw [hs']
  by_cases hlen : f.header.length.toNat = 0
  · have hno : ¬ readsBody f.header = true := fun h => (readsBody_iff.mp h).1 hlen
    simp [networkReceive, code, msg, count, announced, hlen, hno, CombinedMessage.zero]
  · by_cases hlogin : f.header.type = MessageType.loginRequest.code
    · have hyes : readsBody f.header = true := readsBody_iff.mpr ⟨hlen, .inl hlogin⟩
      simp [networkReceive, hpair, code, msg, count, announced, hlen, hlogin, hyes,
        CombinedMessage.zero, data]
    · by_cases htext : f.header.type = MessageType.clientToServer.code
      · have hyes : readsBody f.header = true := readsBody_iff.mpr ⟨hlen, .inr htext⟩
        have hne : ¬ MessageType.clientToServer.code = MessageType.loginRequest.code := by decide
        simp [networkReceive, hpair, code, msg, count, announced, hlen, hne, htext, hyes,
          CombinedMessage.zero, data]
      · have hno : ¬ readsBody f.header = true := fun h =>
          (readsBody_iff.mp h).2.elim hlogin htext
        simp [networkReceive, code, msg, count, announced, hlen, hlogin, htext, hno,
          CombinedMessage.zero]

/-- A pass over any supply: its header, and the frame of that header and of what the read
brings. -/
theorem receive_eq {σ : Type} {src : Source σ} {s : σ} {f : Frame}
    (hheader : MessageHeader.ofWire (stored (src.ask headerSize s).1) = f.header)
    (hcount : 0 < returned (src.ask headerSize s).1)
    (hask : (src.ask f.announced (src.ask headerSize s).2).1 = f.result) :
    receive src s =
      (.frame (returned (src.ask headerSize s).1) f.code f.msg f.count,
        if readsBody f.header then (src.ask f.announced (src.ask headerSize s).2).2
        else (src.ask headerSize s).2) := by
  have hbody := networkReceive_eq hask
  rw [← hheader] at hbody
  simp only [receive, checkForMessage, hheader]
  rw [hheader] at hbody
  rw [if_neg (by omega), hbody]

/-- The receiving half of a pass, on a frame. -/
theorem received_eq (f : Frame) : f.received = .frame 3 f.code f.msg f.count := by
  have hheader : (Source.ask scripted headerSize f.script) = (some f.header.wire, [f.body]) := by
    simp [Source.ask, scripted, script]
  have hreceive := receive_eq (s := f.script) (f := f)
    (by rw [hheader]; exact MessageHeader.ofWire_wire f.header)
    (by rw [hheader]; exact (by decide : (0 : Int) < 3))
    (by rw [hheader]; rfl)
  rw [received, hreceive, hheader]
  rfl

/-- The body behind what was read is zero. -/
theorem bytes_msg {f : Frame} (hbody : readsBody f.header = true) (h : f.data.length ≤ bodySize) :
    f.msg.body.bytes = f.data ++ List.replicate (bodySize - f.data.length) 0 := by
  simp only [msg, hbody, if_true]
  rw [Buf.bytes_write (by simpa using h)]
  simp

/-! ## Which frames get which code -/

/-- A login request is never taken for a text. -/
theorem loginCode_ne_text (m : CombinedMessage) (k : Int) :
    loginCode m k ≠ .receivedMessage ∧ loginCode m k ≠ .receivedServerCommand := by
  unfold loginCode
  simp only
  split_ifs <;> simp

theorem code_receivedLogin {f : Frame} (h : f.code = .receivedLogin) :
    readsBody f.header = true ∧ f.header.type = MessageType.loginRequest.code ∧
      magicValid f.msg = true ∧ versionValid f.msg = true ∧
      5 < f.data.length ∧ f.data.length < 37 := by
  unfold code at h
  split at h
  · cases h
  · rename_i hlen
    split at h
    · rename_i hlogin
      have hyes : readsBody f.header = true := readsBody_iff.mpr ⟨hlen, .inl hlogin⟩
      simp only [loginCode] at h
      split at h
      · rename_i hcount
        have hd : (f.data.length : Int) = f.count := by
          simp only [count, hyes, if_true] at hcount ⊢
          exact length_data_of_returned (by omega)
        split at h
        · rename_i hversion
          split at h
          · rename_i hmagic
            exact ⟨hyes, hlogin, hmagic, hversion, by omega, by omega⟩
          · cases h
        · cases h
      · cases h
    · split at h
      · simp only [textCode] at h
        split at h <;> cases h
      · cases h

/-- A text is a message or a command by its first byte alone. -/
theorem code_text {f : Frame} (hbody : readsBody f.header = true)
    (htext : f.header.type = MessageType.clientToServer.code) :
    f.code = if isCommandText f.msg then .receivedServerCommand else .receivedMessage := by
  have hlen : f.announced ≠ 0 := (readsBody_iff.mp hbody).1
  have hne : ¬ MessageType.clientToServer.code = MessageType.loginRequest.code := by decide
  simp [code, hlen, htext, hne, textCode]

theorem code_receivedMessage {f : Frame} (h : f.code = .receivedMessage) :
    readsBody f.header = true ∧ f.header.type = MessageType.clientToServer.code := by
  unfold code at h
  split at h
  · cases h
  · rename_i hlen
    split at h
    · exact absurd h (loginCode_ne_text _ _).1
    · split at h
      · rename_i htext
        exact ⟨readsBody_iff.mpr ⟨hlen, .inr htext⟩, htext⟩
      · cases h

/-- A well-formed login request: magic, version 0 and 1 to 31 name bytes. -/
def IsLogin (f : Frame) : Prop :=
  f.header.type = MessageType.loginRequest.code ∧ f.data.take 4 = be32 0x0badf00d ∧
    (f.data.drop 4).take 1 = [0] ∧ 5 < f.data.length ∧ f.data.length < 37

/-- A frame of type `MT_ClientToServer` that announces something. -/
def IsText (f : Frame) : Prop :=
  f.header.type = MessageType.clientToServer.code ∧ f.announced ≠ 0

/-- A text frame whose first byte came and is a slash. -/
def IsCommand (f : Frame) : Prop := f.IsText ∧ f.data.take 1 = lit "/"

instance (f : Frame) : Decidable f.IsLogin := inferInstanceAs (Decidable (_ ∧ _ ∧ _ ∧ _ ∧ _))

instance (f : Frame) : Decidable f.IsText := inferInstanceAs (Decidable (_ ∧ _ ≠ _))

instance (f : Frame) : Decidable f.IsCommand := inferInstanceAs (Decidable (_ ∧ _))

theorem IsText.readsBody {f : Frame} (h : f.IsText) : readsBody f.header = true :=
  readsBody_iff.mpr ⟨h.2, .inr h.1⟩

/-- With 6 to 36 bytes read, magic and version are read from the bytes that came. -/
theorem fields_msg {f : Frame} (hbody : LinuxChat.readsBody f.header = true)
    (h5 : 5 < f.data.length) (h37 : f.data.length < 37) :
    (magicValid f.msg = true ↔ f.data.take 4 = be32 0x0badf00d) ∧
      (versionValid f.msg = true ↔ (f.data.drop 4).take 1 = [0]) := by
  have hbytes := bytes_msg hbody (by unfold bodySize; omega)
  rw [magicValid, versionValid, Buf.slice, Buf.slice, hbytes, List.drop_zero,
    List.take_append_of_le_length (by omega), List.drop_append_of_le_length (by omega),
    List.take_append_of_le_length (by simp; omega), beq_iff_eq, beq_iff_eq]
  exact ⟨Iff.rfl, Iff.rfl⟩

/-- The code of a login request that brings more than five bytes. -/
theorem code_login {f : Frame} (htype : f.header.type = MessageType.loginRequest.code)
    (h5 : 5 < f.data.length) :
    LinuxChat.readsBody f.header = true ∧ f.code = loginCode f.msg f.data.length := by
  have hlen : f.announced ≠ 0 := by
    have := f.length_data_le
    omega
  have hbody : LinuxChat.readsBody f.header = true := readsBody_iff.mpr ⟨hlen, .inl htype⟩
  have hcount : f.count = f.data.length := by
    rw [count, if_pos hbody]
    refine f.returned_result.resolve_left fun hneg => ?_
    rw [data_of_failed hneg] at h5
    cases h5
  exact ⟨hbody, by rw [code, if_neg hlen, if_pos htype, hcount]⟩

/-- `NV_Received_login` is the code of the well-formed login requests. -/
theorem code_eq_receivedLogin {f : Frame} : f.code = .receivedLogin ↔ f.IsLogin := by
  constructor
  · intro h
    obtain ⟨hbody, htype, hmagic, hversion, h5, h37⟩ := code_receivedLogin h
    obtain ⟨hm, hv⟩ := fields_msg hbody h5 h37
    exact ⟨htype, hm.mp hmagic, hv.mp hversion, h5, h37⟩
  · rintro ⟨htype, hmagic, hversion, h5, h37⟩
    obtain ⟨hbody, hcode⟩ := code_login htype h5
    obtain ⟨hm, hv⟩ := fields_msg hbody h5 h37
    rw [hcode, loginCode, hm.mpr hmagic, hv.mpr hversion]
    exact if_pos (by omega)

/-- The first byte of a text is the first byte that came. -/
theorem isCommandText_msg {f : Frame} (hbody : readsBody f.header = true) :
    isCommandText f.msg = true ↔ f.data.take 1 = lit "/" := by
  simp only [isCommandText, beq_iff_eq, msg, hbody, if_true, Buf.slice, Buf.write, List.take_zero,
    List.nil_append, List.drop_zero]
  cases f.data with
  | nil => decide
  | cons a rest => rfl

theorem code_eq_receivedServerCommand {f : Frame} :
    f.code = .receivedServerCommand ↔ f.IsCommand := by
  constructor
  · intro h
    unfold code at h
    split at h
    · cases h
    · rename_i hlen
      split at h
      · exact absurd h (loginCode_ne_text _ _).2
      · split at h
        · rename_i htype
          have htext : f.IsText := ⟨htype, hlen⟩
          refine ⟨htext, (isCommandText_msg htext.readsBody).mp ?_⟩
          by_contra hno
          simp [textCode, hno] at h
        · cases h
  · rintro ⟨htext, hslash⟩
    rw [code_text htext.readsBody htext.1, if_pos ((isCommandText_msg htext.readsBody).mpr hslash)]

theorem code_eq_receivedMessage {f : Frame} :
    f.code = .receivedMessage ↔ f.IsText ∧ ¬ f.IsCommand := by
  constructor
  · intro h
    obtain ⟨hbody, htype⟩ := code_receivedMessage h
    refine ⟨⟨htype, (readsBody_iff.mp hbody).1⟩, fun hcmd => ?_⟩
    rw [code_eq_receivedServerCommand.mpr hcmd] at h
    cases h
  · rintro ⟨htext, hno⟩
    rw [code_text htext.readsBody htext.1, if_neg]
    exact fun hcmd => hno ⟨htext, (isCommandText_msg htext.readsBody).mp hcmd⟩

/-! ## The name of a login request -/

/-- The name field of a login request: the name, then zeros. -/
theorem authName_msg {f : Frame} (h : f.code = .receivedLogin) :
    f.msg.authName = f.name ++ List.replicate (bodySize - f.data.length) 0 := by
  obtain ⟨hbody, -, -, -, h5, h37⟩ := code_receivedLogin h
  rw [CombinedMessage.authName, bytes_msg hbody (by unfold bodySize; omega),
    List.drop_append_of_le_length (by omega), name]

theorem length_name {f : Frame} : f.name.length = f.data.length - 5 := by simp [name]

/-- A login request announces more than its first five bytes, and never fewer name bytes
than it carries. -/
theorem announced_receivedLogin {f : Frame} (h : f.code = .receivedLogin) :
    6 ≤ f.announced ∧ f.name.length ≤ f.announced - 5 ∧ 0 < f.name.length := by
  obtain ⟨-, -, -, -, h5, -⟩ := code_receivedLogin h
  have := f.length_data_le
  rw [length_name]
  omega

theorem loginCopySize_eq {f : Frame} (h : f.code = .receivedLogin) :
    loginCopySize f.announced = f.announced - 5 := by
  have hlt := f.announced_lt
  have hle := announced_receivedLogin h
  unfold loginCopySize sizeT
  omega

theorem loginSize_eq {f : Frame} (h : f.code = .receivedLogin) :
    loginSize f.announced = f.announced - 5 := by
  have hlt := f.announced_lt
  have hle := announced_receivedLogin h
  unfold loginSize toU16
  omega

/-- No accepted login stores an empty name. -/
theorem loginSize_ne_zero {f : Frame} (h : f.code = .receivedLogin) :
    loginSize f.announced ≠ 0 := by
  have hann := announced_receivedLogin h
  rw [loginSize_eq h]
  omega

/-- The name of a request, read from its field up to the announced size. -/
theorem cstr_take_authName {f : Frame} (h : f.code = .receivedLogin) :
    cstr (f.msg.authName.take (f.announced - 5)) = cstr f.name := by
  obtain ⟨-, hle, -⟩ := announced_receivedLogin h
  rw [cstr_take, authName_msg h, cstr_append_replicate_zero]
  exact List.take_of_length_le (le_trans (length_cstr_le _) hle)

/-- `login_name` after the copy, as long as the copy fits. -/
theorem bytes_loginName {f : Frame} (h : f.code = .receivedLogin) (hfit : f.announced ≤ 36) :
    (loginName f.msg f.announced).bytes =
      strncpy f.msg.authName (f.announced - 5) ++ List.replicate (36 - f.announced) 0 := by
  have hle := announced_receivedLogin h
  have hrest : netNameLen - (f.announced - 5) = 36 - f.announced := by unfold netNameLen; omega
  rw [loginName, loginCopySize_eq h, Buf.bytes_write (by simp [netNameLen]; omega)]
  simp [hrest]

/-- What `login_User` copies from `login_name` is the name of the request, as a C string. -/
theorem cstr_take_loginMem {f : Frame} (h : f.code = .receivedLogin) (hfit : f.announced ≤ 36)
    (env : Env) :
    cstr ((loginMem env f.msg f.announced).take (loginSize f.announced)) = cstr f.name := by
  rw [loginMem, bytes_loginName h hfit, loginSize_eq h, List.append_assoc,
    List.take_left' (length_strncpy _ _), cstr_strncpy, cstr_take_authName h]

/-- `login_name` as a string, where the array ends it: the name of the request. -/
theorem cstr_loginMem {f : Frame} (h : f.code = .receivedLogin) (hfit : f.announced ≤ 36)
    (hterm : 0 ∈ (loginName f.msg f.announced).bytes) (env : Env) :
    cstr (loginMem env f.msg f.announced) = cstr f.name := by
  rw [loginMem, cstr_append_of_mem hterm, bytes_loginName h hfit, cstr_append_replicate_zero,
    cstr_strncpy, cstr_take_authName h]

/-- `login_name` is terminated unless 31 bytes without NUL were copied into it. -/
theorem loginName_terminated {f : Frame} (h : f.code = .receivedLogin) (hfit : f.announced ≤ 36) :
    0 ∈ (loginName f.msg f.announced).bytes ↔ (cstr f.name).length < netNameLen := by
  have hlen : (cstr (loginName f.msg f.announced).bytes) = cstr f.name := by
    rw [bytes_loginName h hfit, cstr_append_replicate_zero, cstr_strncpy, cstr_take_authName h]
  constructor
  · intro hz
    have := length_cstr_lt hz
    rwa [hlen, Buf.length_bytes] at this
  · intro hlt
    exact zero_mem_of_length_cstr_lt (by rwa [hlen, Buf.length_bytes])

end Frame

end LinuxChat
