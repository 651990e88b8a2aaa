import LinuxChat.Logic.Builders
import LinuxChat.Logic.FrameStep
import LinuxChat.Model.Decode

/-!
# The outgoing format

Built over the buffers its callers give it, each message decodes to what was
put into it: `decode` after a builder is the identity on type, timestamp,
code, sender, and name or text, on clients of either byte order.
-/

namespace LinuxChat

open CMem ByteOrder

/-- A text of 1 to 511 bytes, none of them NUL. -/
structure ChatText where
  bytes : List UInt8
  nulFree : 0 ∉ bytes
  pos : 0 < bytes.length
  lt : bytes.length < netTextLen

/-- The timestamp that is sent: the time, or 0 if it is not wanted or not known. -/
def sentTime (now : UInt64) (use : Bool) : UInt64 := if use && now != timeError then now else 0

theorem timestamp_eq (now : UInt64) (use : Bool) : timestamp now use = be64 (sentTime now use) := by
  unfold timestamp sentTime
  split <;> rfl

/-- A name at its address, as the builders copy it. -/
theorem strncpy_name (name : NameArg) (rest : List UInt8) :
    strncpy (name.bytes ++ rest) name.bytes.length = name.bytes := by
  have htake : (name.bytes ++ rest).take name.bytes.length = name.bytes := List.take_left' rfl
  rw [strncpy_of_notMem (by simp) (by rw [htake]; exact name.nulFree), htake]

/-- A message is sent as its header and the announced part of its body. -/
theorem decode_message {o : Order} {m : CombinedMessage} {n : Nat}
    (hlen : m.header.length.toNat = n) (hn : n ≤ bodySize) :
    decode o m.wire = decodeBody o m.header.type (m.body.bytes.take n) := by
  rw [CombinedMessage.wire, hlen]
  exact decode_wire (by rw [List.length_take_of_le (by simpa using hn), hlen])

/-! ## The login response -/

theorem decode_loginResponse (o : Order) (cfg : Config) (code : LoginResponseCode) :
    decode o (buildLoginResponse cfg code).msg.wire =
      some (.loginResponse 0xc001c001 code.code cfg.serverName.bytes) := by
  have hlt := cfg.serverName.lt
  unfold netNameLenPlus at hlt
  have hmagic : (buildLoginResponse cfg code).msg.body.bytes.take 4 = be32 0xc001c001 := by
    simp only [buildLoginResponse]
    rw [Buf.take_write_of_le (by decide) (by decide), Buf.take_write_of_le (by decide) (by decide)]
    exact @Buf.slice_write _ (Buf.zero bodySize) 0 (be32 0xc001c001) (by decide)
  have hname : (buildLoginResponse cfg code).msg.body.slice 5 cfg.serverName.bytes.length =
      cfg.serverName.bytes := by
    simp only [buildLoginResponse]
    rw [Buf.slice_write_take (by simp [bodySize]; omega) (by simp), List.take_left' rfl]
  have hbody : (buildLoginResponse cfg code).msg.body.bytes.take
      (5 + cfg.serverName.bytes.length) = be32 0xc001c001 ++ code.code :: cfg.serverName.bytes := by
    rw [Buf.take_add, show 5 = 4 + 1 from rfl, Buf.take_add, hmagic, slice_code_loginResponse,
      hname, List.append_assoc, List.singleton_append]
  have hfit : 5 + cfg.serverName.bytes.length ≤ bodySize := by unfold bodySize; omega
  have hnat : (buildLoginResponse cfg code).msg.header.length.toNat =
      5 + cfg.serverName.bytes.length := toNat_ofNat_length hfit
  rw [decode_message hnat hfit, hbody]
  exact decodeBody_loginResponse o _ _

/-! ## Users added and removed -/

/-- A timestamp at the start of a cleared body. -/
theorem take_timestamp (now : UInt64) (use : Bool) :
    (CombinedMessage.zero.body.write 0 (timestamp now use)).bytes.take 8 =
      be64 (sentTime now use) := by
  have hwrite := @Buf.slice_write _ CombinedMessage.zero.body 0 (timestamp now use)
    (by simp [bodySize])
  rw [length_timestamp, Buf.slice, List.drop_zero] at hwrite
  rw [hwrite, timestamp_eq]

theorem decode_userAdded (o : Order) (now : UInt64) (name : NameArg) (rest : List UInt8)
    (use : Bool) :
    decode o (buildUserAdded .zero now (name.bytes ++ 0 :: rest) name.bytes.length use).msg.wire =
      some (.userAdded (sentTime now use) name.bytes) := by
  have hlt := name.lt
  unfold netNameLenPlus at hlt
  have hfit : 8 + name.bytes.length ≤ bodySize := by unfold bodySize; omega
  have hfield := @drop_userAdded now (name.bytes ++ 0 :: rest) name.bytes.length use hfit
  have hok := (@lengthOk_userAdded now (name.bytes ++ 0 :: rest) name.bytes.length use hfit).1
  have hencoded : (buildUserAdded .zero now (name.bytes ++ 0 :: rest) name.bytes.length
      use).encoded = 8 + name.bytes.length := by
    simp only [buildUserAdded]
    rw [List.take_left' rfl, cstr_eq_self name.nulFree]
  rw [strncpy_name] at hfield
  rw [hencoded] at hok
  generalize hm : buildUserAdded .zero now (name.bytes ++ 0 :: rest) name.bytes.length use = m
    at hfield hok ⊢
  have htype : m.msg.header.type = MessageType.userAdd.code := by rw [← hm]; rfl
  have htime : m.msg.body.bytes.take 8 = be64 (sentTime now use) := by
    rw [← hm]
    simp only [buildUserAdded]
    rw [Buf.take_write_of_le le_rfl (by decide), take_timestamp]
  have hbody : m.msg.body.bytes.take (8 + name.bytes.length) =
      be64 (sentTime now use) ++ name.bytes := by
    rw [Buf.take_add, htime, Buf.slice, hfield, List.take_left' rfl]
  rw [decode_message hok hfit, hbody, htype, decodeBody_userAdded]

theorem decode_userRemoved (o : Order) (now : UInt64) (code : ClientDisconnectCode)
    (name : NameArg) (rest : List UInt8) :
    decode o (buildUserRemoved .zero now code (name.bytes ++ 0 :: rest)
        name.bytes.length).msg.wire =
      some (.userRemoved (sentTime now true) code.code name.bytes) := by
  have hlt := name.lt
  unfold netNameLenPlus at hlt
  have hfit : 9 + name.bytes.length ≤ bodySize := by unfold bodySize; omega
  have hcode := @Buf.slice_write _ (CombinedMessage.zero.body.write 0 (timestamp now true)) 8
    [code.code] (by simp [bodySize])
  rw [List.length_singleton] at hcode
  have hbody : (buildUserRemoved .zero now code (name.bytes ++ 0 :: rest)
      name.bytes.length).msg.body.bytes.take (9 + name.bytes.length) =
        be64 (sentTime now true) ++ code.code :: name.bytes := by
    simp only [buildUserRemoved, strncpy_name]
    rw [Buf.take_add, Buf.slice_write hfit, Buf.take_write_of_le le_rfl (by decide),
      show 9 = 8 + 1 from rfl, Buf.take_add, Buf.take_write_of_le le_rfl (by decide),
      take_timestamp, hcode, List.append_assoc, List.singleton_append]
  have hnat : (buildUserRemoved .zero now code (name.bytes ++ 0 :: rest)
      name.bytes.length).msg.header.length.toNat = 9 + name.bytes.length := toNat_ofNat_length hfit
  rw [decode_message hnat hfit, hbody]
  exact decodeBody_userRemoved o _ _ _

/-! ## Chat messages and replies -/

/-- A message of the type `ServerToClient`, by its three fields. -/
theorem decode_serverToClient {o : Order} {m : CombinedMessage} {now : UInt64}
    {sender text : List UInt8} (htype : m.header.type = MessageType.serverToClient.code)
    (hlen : m.header.length.toNat = 40 + text.length) (hfit : 40 + text.length ≤ bodySize)
    (htime : m.body.bytes.take 8 = timestamp now true) (hsender : m.originalSender = sender)
    (htext : m.body.slice 40 text.length = text) :
    decode o m.wire = some (.serverToClient (sentTime now true) sender text) := by
  have hlength : sender.length = netNameLenPlus := by
    rw [← hsender, CombinedMessage.originalSender, Buf.slice]
    simp [netNameLenPlus, bodySize]
  have hbody : m.body.bytes.take (40 + text.length) =
      be64 (sentTime now true) ++ (sender ++ text) := by
    rw [Buf.take_add, htext, show 40 = 8 + netNameLenPlus from rfl, Buf.take_add, htime,
      timestamp_eq, ← List.append_assoc]
    exact congrArg (be64 (sentTime now true) ++ · ++ text) hsender
  rw [decode_message hlen hfit, hbody, htype, decodeBody_serverToClient o _ _ hlength]

/-- The message a text frame leaves, as far as its text goes. -/
theorem take_text (text : ChatText) :
    (Frame.text text.bytes.length text.bytes).msg.text.take text.bytes.length = text.bytes := by
  have hpos := text.pos
  have hlt := text.lt
  unfold netTextLen at hlt
  have hann : (Frame.text text.bytes.length text.bytes).announced = text.bytes.length :=
    toNat_ofNat_length (by unfold bodySize; omega)
  have hdata : (Frame.text text.bytes.length text.bytes).data = text.bytes := by
    rw [Frame.data_of_some rfl, hann, List.take_length]
  have hread : readsBody (Frame.text text.bytes.length text.bytes).header = true :=
    Frame.readsBody_iff.mpr ⟨by rw [Frame.announced] at hann; omega, .inr rfl⟩
  have hbytes := Frame.bytes_msg hread (by rw [hdata]; unfold bodySize; omega)
  rw [CombinedMessage.text, Buf.slice, List.drop_zero, List.take_take, hbytes, hdata,
    Nat.min_eq_left (by unfold netTextLen; omega), List.take_left' rfl]

theorem decode_chat (o : Order) (now : UInt64) (name : NameArg) (rest : List UInt8)
    (text : ChatText) :
    decode o (buildServerToClient (Frame.text text.bytes.length text.bytes).msg now
        text.bytes.length (name.bytes ++ 0 :: rest) name.bytes.length).msg.wire =
      some (.serverToClient (sentTime now true) (senderField name) text.bytes) := by
  have hname := name.lt
  have htext := text.lt
  unfold netTextLen at htext
  have hfit : 40 + text.bytes.length ≤ bodySize := by unfold bodySize; omega
  have hcopy : strncpy (Frame.text text.bytes.length text.bytes).msg.text text.bytes.length =
      text.bytes := by
    have hle : text.bytes.length ≤
        (Frame.text text.bytes.length text.bytes).msg.text.length := by
      rw [CombinedMessage.text, Buf.slice]
      simp [bodySize, netTextLen]
      omega
    rw [strncpy_of_notMem hle (by rw [take_text]; exact text.nulFree), take_text]
  refine decode_serverToClient rfl (toNat_ofNat_length hfit) hfit ?_ ?_ ?_
  · -- Name and text are stored behind the timestamp.
    simp only [buildServerToClient]
    rw [Buf.take_write_of_le (by decide) (by decide), Buf.take_write_of_le le_rfl (by decide)]
    have hwrite := @Buf.slice_write _ ((Frame.text text.bytes.length text.bytes).msg.body.write 0
      (List.replicate netTextLen 0)) 0 (timestamp now true) (by simp [bodySize])
    rwa [length_timestamp, Buf.slice, List.drop_zero] at hwrite
  · rw [originalSender_serverToClient hname.le, strncpy_name]
    rfl
  · simp only [buildServerToClient, hcopy]
    exact Buf.slice_write hfit

/-- A reply built over a cleared message. -/
theorem decode_reply {o : Order} {m : CombinedMessage} {now : UInt64} {name : NameArg}
    {text : ChatText} (htype : m.header.type = MessageType.serverToClient.code)
    (hlen : m.header.length.toNat = 40 + text.bytes.length)
    (hbody : m.body = replyBody .zero now name.bytes text.bytes) :
    decode o m.wire =
      some (.serverToClient (sentTime now true) (senderField name) text.bytes) := by
  have hname := name.lt
  have htext := text.lt
  unfold netNameLenPlus at hname
  unfold netTextLen at htext
  have hfit : 40 + text.bytes.length ≤ bodySize := by unfold bodySize; omega
  refine decode_serverToClient htype hlen hfit ?_ ?_ ?_
  · rw [hbody, replyBody, Buf.take_write_of_le (by decide) (by decide),
      Buf.take_write_of_le le_rfl (by decide), take_timestamp, timestamp_eq]
  · rw [CombinedMessage.originalSender, hbody, replyBody,
      Buf.slice_write_of_le (by decide) (by decide),
      Buf.slice_write_append (by unfold netNameLenPlus; omega) (by decide),
      Buf.slice_write_of_ge (by simp) (by unfold bodySize; omega), CombinedMessage.zero,
      Buf.slice_zero (by unfold bodySize netNameLenPlus; omega), senderField]
  · rw [hbody, replyBody]
    exact Buf.slice_write hfit

/-- A reply of at most 511 bytes is formatted whole. -/
theorem formatted_eq (text : ChatText) : cstr (text.bytes.take (netTextLen - 1)) = text.bytes := by
  rw [List.take_of_length_le (Nat.le_sub_one_of_lt text.lt), cstr_eq_self text.nulFree]

/-- **The outgoing format round trip.** Whatever name, text, time and code are put into a
message, a client of either byte order decodes them from the bytes that are sent. -/
theorem decode_build (o : Order) (cfg : Config) (now : UInt64) (name : NameArg)
    (rest : List UInt8) (text : ChatText) :
    (∀ code, decode o (buildLoginResponse cfg code).msg.wire =
        some (.loginResponse 0xc001c001 code.code cfg.serverName.bytes)) ∧
      (∀ use, decode o (buildUserAdded .zero now (name.bytes ++ 0 :: rest) name.bytes.length
          use).msg.wire = some (.userAdded (sentTime now use) name.bytes)) ∧
      (∀ code, decode o (buildUserRemoved .zero now code (name.bytes ++ 0 :: rest)
          name.bytes.length).msg.wire =
        some (.userRemoved (sentTime now true) code.code name.bytes)) ∧
      decode o (buildServerToClient (Frame.text text.bytes.length text.bytes).msg now
          text.bytes.length (name.bytes ++ 0 :: rest) name.bytes.length).msg.wire =
        some (.serverToClient (sentTime now true) (senderField name) text.bytes) ∧
      decode o (buildServerResponse cfg .zero now text.bytes).msg.wire =
        some (.serverToClient (sentTime now true) (senderField cfg.serverName) text.bytes) ∧
      decode o (buildServerResponseSpecial .zero now name.bytes text.bytes).msg.wire =
        some (.serverToClient (sentTime now true) (senderField name) text.bytes) := by
  have hfit : 40 + text.bytes.length ≤ bodySize := by
    have htext := text.lt
    unfold netTextLen at htext
    unfold bodySize
    omega
  refine ⟨decode_loginResponse o cfg, decode_userAdded o now name rest, fun code =>
    decode_userRemoved o now code name rest, decode_chat o now name rest text, ?_, ?_⟩
  · refine decode_reply rfl ?_ ?_ <;> simp only [buildServerResponse, formatted_eq]
    exact toNat_ofNat_length hfit
  · refine decode_reply rfl ?_ ?_ <;> simp only [buildServerResponseSpecial, formatted_eq]
    exact toNat_ofNat_length hfit

end LinuxChat
