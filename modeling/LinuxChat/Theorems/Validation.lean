import LinuxChat.Logic.FrameStep

/-!
# What `network_Receive` accepts

A login request is accepted exactly when magic, version and the count that
was read are right. A text is accepted whatever was read, since the verdict
of its length check is overwritten, and a type that is not known gets the
code 0, which is none of the refusals.
-/

namespace LinuxChat

open CMem ByteStream Trace

/-- The code of `network_Receive` for a header and what `read` returns. -/
def networkReceiveCode (f : Frame) : NetworkValidationCode :=
  (networkReceive scripted { CombinedMessage.zero with header := f.header } [f.body]).1

/-- A login request as network.h describes it, with 6 to 36 bytes read. -/
def ValidLogin (f : Frame) : Prop :=
  0 < f.announced ∧ f.header.type = MessageType.loginRequest.code ∧
    f.data.take 4 = be32 0x0badf00d ∧ (f.data.drop 4).take 1 = [0] ∧
    6 ≤ returned f.result ∧ returned f.result ≤ 36

/-- A text of which 1 to 511 bytes were read. -/
def ValidText (f : Frame) : Prop :=
  0 < f.announced ∧ f.header.type = MessageType.clientToServer.code ∧
    1 ≤ returned f.result ∧ returned f.result < netTextLen

/-- The first byte that was read is a slash. -/
def StartsWithSlash (f : Frame) : Prop := f.data.take 1 = lit "/"

/-- Valid messages get their codes, and everything else gets a refusal. -/
def AcceptsExactly (f : Frame) : Prop :=
  (networkReceiveCode f = .receivedLogin ↔ ValidLogin f) ∧
    (networkReceiveCode f = .receivedServerCommand ↔ ValidText f ∧ StartsWithSlash f) ∧
    (networkReceiveCode f = .receivedMessage ↔ ValidText f ∧ ¬ StartsWithSlash f) ∧
    (¬ ValidLogin f → ¬ ValidText f → (networkReceiveCode f).toInt < 0)

theorem networkReceiveCode_eq (f : Frame) : networkReceiveCode f = f.code := by
  have hask : (Source.ask scripted f.announced [f.body]).1 = f.result := rfl
  rw [networkReceiveCode, Frame.networkReceive_eq hask]

/-- The checks of a login request decide between its code and a refusal. -/
theorem validLogin_iff {f : Frame} : ValidLogin f ↔ f.IsLogin := by
  unfold ValidLogin Frame.IsLogin
  constructor
  · rintro ⟨-, htype, hmagic, hversion, h6, h36⟩
    have hlen := Frame.length_data_of_returned (f := f) (by omega)
    exact ⟨htype, hmagic, hversion, by omega, by omega⟩
  · rintro ⟨htype, hmagic, hversion, h5, h37⟩
    have hle := f.length_data_le
    have hcount : returned f.result = f.data.length := by
      refine f.returned_result.resolve_left fun hneg => ?_
      rw [Frame.data_of_failed hneg] at h5
      exact absurd h5 (by decide)
    exact ⟨by omega, htype, hmagic, hversion, by omega, by omega⟩

theorem ValidText.isText {f : Frame} (h : ValidText f) : f.IsText := ⟨h.2.1, h.1.ne'⟩

/-- A refused login request gets a negative code. -/
theorem toInt_loginCode {m : CombinedMessage} {k : Int} (h : loginCode m k ≠ .receivedLogin) :
    (loginCode m k).toInt < 0 := by
  unfold loginCode at h ⊢
  simp only at h ⊢
  split_ifs at h ⊢ <;> first | decide | exact absurd rfl h

/-- A text gets one of its two codes, whatever was read. -/
theorem AcceptsExactly.validText {f : Frame} (h : AcceptsExactly f) (htext : f.IsText) :
    ValidText f := by
  obtain ⟨-, hcommand, hmessage, -⟩ := h
  rw [networkReceiveCode_eq] at hcommand hmessage
  by_cases hslash : f.IsCommand
  · exact (hcommand.mp (Frame.code_eq_receivedServerCommand.mpr hslash)).1
  · exact (hmessage.mp (Frame.code_eq_receivedMessage.mpr ⟨htext, hslash⟩)).1

/-- Of the frames that are no texts, those are right that are login requests or refused. -/
theorem acceptsExactly_of_not_isText {f : Frame} (hnotext : ¬ f.IsText)
    (hrefused : ¬ f.IsLogin → f.code.toInt < 0) : AcceptsExactly f := by
  have hnovalid : ¬ ValidText f := fun h => hnotext h.isText
  unfold AcceptsExactly
  rw [networkReceiveCode_eq, Frame.code_eq_receivedLogin, Frame.code_eq_receivedServerCommand,
    Frame.code_eq_receivedMessage, validLogin_iff]
  exact ⟨Iff.rfl, iff_of_false (fun h => hnotext h.1) (fun h => hnovalid h.1),
    iff_of_false (fun h => hnotext h.1) (fun h => hnovalid h.1), fun hno _ => hrefused hno⟩

theorem acceptsExactly_of_validText {f : Frame} (hvalid : ValidText f) : AcceptsExactly f := by
  have htext : f.IsText := hvalid.isText
  unfold AcceptsExactly
  rw [networkReceiveCode_eq, Frame.code_eq_receivedLogin, Frame.code_eq_receivedServerCommand,
    Frame.code_eq_receivedMessage, validLogin_iff]
  refine ⟨Iff.rfl, ⟨fun h => ⟨hvalid, h.2⟩, fun h => ⟨htext, h.2⟩⟩, ?_,
    fun _ hno => absurd hvalid hno⟩
  exact ⟨fun h => ⟨hvalid, fun hslash => h.2 ⟨htext, hslash⟩⟩,
    fun h => ⟨htext, fun hcommand => h.2 hcommand.2⟩⟩

/-- **`network_Receive` accepts exactly the valid messages** if and only if the frame is no
text of the wrong length and has a known type or no body. -/
theorem acceptsExactly_iff (f : Frame) :
    AcceptsExactly f ↔
      f.announced = 0 ∨ f.header.type = MessageType.loginRequest.code ∨
        (f.header.type = MessageType.clientToServer.code ∧ 1 ≤ returned f.result ∧
          returned f.result < netTextLen) := by
  have hne : MessageType.clientToServer.code ≠ MessageType.loginRequest.code := by decide
  constructor
  · intro haccepts
    by_cases hlen : f.announced = 0
    · exact .inl hlen
    by_cases hlogin : f.header.type = MessageType.loginRequest.code
    · exact .inr (.inl hlogin)
    by_cases htype : f.header.type = MessageType.clientToServer.code
    · exact .inr (.inr ⟨htype, (haccepts.validText ⟨htype, hlen⟩).2.2⟩)
    · -- An unknown type gets the code 0, which is no refusal.
      have hcode : f.code = .zero := by simp [Frame.code, hlen, hlogin, htype]
      have hneg := haccepts.2.2.2 (fun h => hlogin h.2.1) (fun h => htype h.2.1)
      rw [networkReceiveCode_eq, hcode] at hneg
      exact absurd hneg (by decide)
  · have hempty : f.announced = 0 → f.code.toInt < 0 := by
      intro hlen
      have hcode : f.code = .invalidLength := by simp [Frame.code, hlen]
      rw [hcode]
      decide
    rintro (hlen | hlogin | ⟨htype, hcount⟩)
    · exact acceptsExactly_of_not_isText (fun h => h.2 hlen) fun _ => hempty hlen
    · refine acceptsExactly_of_not_isText (fun h => hne (h.1.symm.trans hlogin)) fun hno => ?_
      by_cases hlen : f.announced = 0
      · exact hempty hlen
      · have hcode : f.code = loginCode f.msg f.count := by simp [Frame.code, hlen, hlogin]
        rw [← Frame.code_eq_receivedLogin, hcode] at hno
        rw [hcode]
        exact toInt_loginCode hno
    · have hlen : 0 < f.announced := by
        have := f.length_data_le
        have := Frame.length_data_of_returned (f := f) (by omega)
        omega
      exact acceptsExactly_of_validText ⟨hlen, htype, hcount⟩

/-- A text of 600 bytes, a text whose read fails and a frame of an unknown type are not
refused. -/
theorem not_acceptsExactly_long :
    let long := Frame.text 600 (List.replicate 600 97)
    let failed : Frame := ⟨⟨MessageType.clientToServer.code, 5⟩, none⟩
    let unknown : Frame := ⟨⟨9, 3⟩, some [0, 0, 0]⟩
    (networkReceiveCode long = .receivedMessage ∧ ¬ AcceptsExactly long) ∧
      (networkReceiveCode failed = .receivedMessage ∧ ¬ AcceptsExactly failed) ∧
      ((networkReceiveCode unknown).toInt = 0 ∧ ¬ AcceptsExactly unknown) := by
  refine ⟨⟨by decide +kernel, ?_⟩, ⟨by decide +kernel, ?_⟩, ⟨by decide +kernel, ?_⟩⟩
  · rintro ⟨-, -, hmessage, -⟩
    have hvalid := (hmessage.mp (by decide +kernel)).1
    exact absurd hvalid.2.2.2 (by decide +kernel)
  · rintro ⟨-, -, hmessage, -⟩
    have hvalid := (hmessage.mp (by decide +kernel)).1
    exact absurd hvalid.2.2.1 (by decide +kernel)
  · rintro ⟨-, -, -, hrefused⟩
    refine absurd (hrefused (fun h => ?_) (fun h => ?_)) (by decide +kernel)
    · exact absurd h.2.1 (by decide)
    · exact absurd h.2.1 (by decide)

end LinuxChat
