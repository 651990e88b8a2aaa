import LinuxChat.Model.Message

/-!
# What the builders leave in a message

The length each builder announces against the bytes it encoded
(`Outgoing.LengthOk`), and the fields a proof reads back: the sender of a chat
message.
-/

namespace LinuxChat

open CMem

/-- `originalSender`: a name and zeros. -/
def senderField (name : NameArg) : List UInt8 :=
  name.bytes ++ List.replicate (netNameLenPlus - name.bytes.length) 0

/-- The announced length is that of the encoded body, and header and body lie inside the
message. -/
def Outgoing.LengthOk (o : Outgoing) : Prop :=
  o.msg.header.length.toNat = o.encoded ∧ headerSize + o.msg.header.length.toNat ≤ combinedSize

instance (o : Outgoing) : Decidable o.LengthOk := inferInstanceAs (Decidable (_ ∧ _))

/-- A length that fits into the body fits into its 16 bits. -/
theorem toNat_ofNat_length {n : Nat} (h : n ≤ bodySize) : (UInt16.ofNat n).toNat = n := by
  rw [UInt16.toNat_ofNat', Nat.mod_eq_of_lt]
  unfold bodySize at h
  omega

theorem lengthOk_of_eq {o : Outgoing} (hlen : o.msg.header.length = UInt16.ofNat o.encoded)
    (hfit : o.encoded ≤ bodySize) : o.LengthOk := by
  have hnat : o.msg.header.length.toNat = o.encoded := by rw [hlen, toNat_ofNat_length hfit]
  refine ⟨hnat, ?_⟩
  rw [hnat]
  exact Nat.add_le_add_left hfit headerSize

theorem lengthOk_loginResponse (cfg : Config) (code : LoginResponseCode) :
    (buildLoginResponse cfg code).LengthOk := by
  have hlt := cfg.serverName.lt
  refine lengthOk_of_eq rfl ?_
  simp only [buildLoginResponse, bodySize]
  unfold netNameLenPlus at hlt
  omega

/-- The formatted text of a reply is at most 511 bytes long. -/
theorem length_formatted_le (text : List UInt8) :
    (cstr (text.take (netTextLen - 1))).length ≤ netTextLen - 1 :=
  le_trans (length_cstr_le _) (List.length_take_le _ _)

theorem lengthOk_serverResponse (cfg : Config) (m : CombinedMessage) (now : UInt64)
    (text : List UInt8) : (buildServerResponse cfg m now text).LengthOk := by
  have hle := length_formatted_le text
  refine lengthOk_of_eq rfl ?_
  simp only [buildServerResponse, bodySize]
  unfold netTextLen at hle ⊢
  omega

theorem lengthOk_serverResponseSpecial (m : CombinedMessage) (now : UInt64)
    (name text : List UInt8) : (buildServerResponseSpecial m now name text).LengthOk := by
  have hle := length_formatted_le text
  refine lengthOk_of_eq rfl ?_
  simp only [buildServerResponseSpecial, bodySize]
  unfold netTextLen at hle ⊢
  omega

/-- The name field of a `UserAdd` built over a cleared message. -/
theorem drop_userAdded {now : UInt64} {name : List UInt8} {size : Nat} {use : Bool}
    (h : 8 + size ≤ bodySize) :
    (buildUserAdded .zero now name size use).msg.body.bytes.drop 8 =
      strncpy name size ++ List.replicate (bodySize - (8 + size)) 0 := by
  have hwrite := @Buf.drop_write _ ((Buf.zero bodySize).write 0 (timestamp now use)) 8
    (strncpy name size) (by simpa using h)
  rw [length_strncpy, Buf.drop_write_of_le (by simp) h] at hwrite
  simpa [buildUserAdded, CombinedMessage.zero] using hwrite

/-- A `UserAdd` over a cleared message has its length from the name it holds. -/
theorem lengthOk_userAdded {now : UInt64} {name : List UInt8} {size : Nat} {use : Bool}
    (h : 8 + size ≤ bodySize) : (buildUserAdded .zero now name size use).LengthOk := by
  have hstr : cstr ((buildUserAdded .zero now name size use).msg.body.bytes.drop 8) =
      cstr (name.take size) := by
    rw [drop_userAdded h, cstr_append_replicate_zero, cstr_strncpy]
  have hle : (cstr (name.take size)).length ≤ size :=
    le_trans (length_cstr_le _) (List.length_take_le _ _)
  refine lengthOk_of_eq ?_ ?_
  · show UInt16.ofNat (8 + (cstr ((buildUserAdded .zero now name size use).msg.body.bytes.drop
      8)).length) = _
    rw [hstr]
    rfl
  · show 8 + (cstr (name.take size)).length ≤ bodySize
    omega

/-- A `UserRemove` announces the size it is given, and encodes the name. -/
theorem lengthOk_userRemoved {m : CombinedMessage} {now : UInt64} {code : ClientDisconnectCode}
    {name : List UInt8} {size : Nat} (hsize : 9 + size ≤ bodySize)
    (hname : (cstr (name.take size)).length = size) :
    (buildUserRemoved m now code name size).LengthOk := by
  refine lengthOk_of_eq ?_ ?_
  · simp only [buildUserRemoved, hname]
  · simp only [buildUserRemoved, hname]
    exact hsize

/-- A chat message announces the length the client announced, and encodes the text. -/
theorem lengthOk_serverToClient {m : CombinedMessage} {now : UInt64} {msgLength : Nat}
    {name : List UInt8} {nameSize : Nat} (hfit : msgLength ≤ netTextLen)
    (htext : (cstr (m.text.take msgLength)).length = msgLength) :
    (buildServerToClient m now msgLength name nameSize).LengthOk := by
  refine lengthOk_of_eq ?_ ?_
  · simp only [buildServerToClient, htext]
  · simp only [buildServerToClient, htext, bodySize]
    unfold netTextLen at hfit
    omega

/-- The sender field of a chat message is what was copied, and zeros. -/
theorem originalSender_serverToClient {m : CombinedMessage} {now : UInt64} {msgLength : Nat}
    {name : List UInt8} {nameSize : Nat} (h : nameSize ≤ netNameLenPlus) :
    (buildServerToClient m now msgLength name nameSize).msg.originalSender =
      strncpy name nameSize ++ List.replicate (netNameLenPlus - nameSize) 0 := by
  unfold netNameLenPlus at h
  -- The 512 cleared bytes cover the field, and the timestamp lies before it.
  have hclear : ((m.body.write 0 (List.replicate netTextLen 0)).write 0 (timestamp now true)).slice
      (8 + nameSize) (32 - nameSize) = List.replicate (32 - nameSize) 0 := by
    rw [Buf.slice_write_of_ge (by simp) (by unfold bodySize; omega)]
    exact Buf.slice_clear (by unfold netTextLen; omega) (by decide)
  simp only [CombinedMessage.originalSender, buildServerToClient]
  rw [Buf.slice_write_of_le (by decide) (by decide),
    Buf.slice_write_append (by simpa [netNameLenPlus] using h) (by decide), length_strncpy]
  exact congrArg _ hclear

/-- The sender of a chat message is the stored name, cut to its stored length. -/
theorem cstr_originalSender {m : CombinedMessage} {now : UInt64} {msgLength : Nat}
    {name : List UInt8} {nameSize : Nat} (h : nameSize ≤ netNameLenPlus) :
    cstr (buildServerToClient m now msgLength name nameSize).msg.originalSender =
      cstr (name.take nameSize) := by
  rw [originalSender_serverToClient h, cstr_append_replicate_zero, cstr_strncpy]

end LinuxChat
