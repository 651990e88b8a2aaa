import LinuxChat.Logic.Builders
import LinuxChat.Logic.FrameSpec

/-!
# What a reply carries of its buffer

`build_Server_response` copies the server name without padding over whatever
the buffer held, and sends the whole sender field. The bytes of the field
behind the name are the old ones (`staleBytes`); they are all that a reply
carries of its buffer (`wire_reply`).
-/

namespace LinuxChat

open CMem Trace

/-- The part of the sender field that `build_Server_response` does not write. -/
def staleBytes (cfg : Config) (m : CombinedMessage) : List UInt8 :=
  m.body.slice (8 + cfg.serverName.bytes.length) (netNameLenPlus - cfg.serverName.bytes.length)

/-- What is sent is what is sent over a cleared buffer, and the sender is the server name
followed by zeros. -/
def CarriesNothing (cfg : Config) (m : CombinedMessage) (now : UInt64) (text : List UInt8) : Prop :=
  (buildServerResponse cfg m now text).msg.wire =
      (buildServerResponse cfg .zero now text).msg.wire ∧
    (buildServerResponse cfg m now text).msg.originalSender = senderField cfg.serverName

variable {cfg : Config} {m m' : CombinedMessage} {now : UInt64} {text : List UInt8}

/-- The text a reply is formatted to. -/
def formattedReply (text : List UInt8) : List UInt8 := cstr (text.take (netTextLen - 1))

/-- The sender field of a reply is the server name and the old bytes behind it. -/
theorem originalSender_reply : (buildServerResponse cfg m now text).msg.originalSender =
    cfg.serverName.bytes ++ staleBytes cfg m := by
  have hlt := cfg.serverName.lt
  unfold netNameLenPlus at hlt
  simp only [CombinedMessage.originalSender, buildServerResponse, replyBody]
  rw [Buf.slice_write_of_le (by decide) (by decide),
    Buf.slice_write_append (by unfold netNameLenPlus; omega) (by decide),
    Buf.slice_write_of_ge (by simp) (by unfold bodySize; omega), staleBytes]

/-- What is sent, field by field. -/
theorem wire_reply : (buildServerResponse cfg m now text).msg.wire =
    (MessageHeader.mk MessageType.serverToClient.code
        (UInt16.ofNat (40 + (formattedReply text).length))).wire ++
      (timestamp now true ++ (cfg.serverName.bytes ++ staleBytes cfg m) ++
        formattedReply text) := by
  have hlt := cfg.serverName.lt
  have hle := length_formatted_le text
  unfold netNameLenPlus at hlt
  unfold netTextLen at hle
  have hfit : 40 + (formattedReply text).length ≤ bodySize := by
    unfold formattedReply bodySize netTextLen
    omega
  have hnat : (buildServerResponse cfg m now text).msg.header.length.toNat =
      40 + (formattedReply text).length := toNat_ofNat_length hfit
  have htime : (buildServerResponse cfg m now text).msg.body.bytes.take 8 = timestamp now true := by
    simp only [buildServerResponse, replyBody]
    rw [Buf.take_write_of_le (by decide) (by decide), Buf.take_write_of_le le_rfl (by decide)]
    have hwrite := @Buf.slice_write _ m.body 0 (timestamp now true) (by simp [bodySize])
    rwa [length_timestamp, Buf.slice, List.drop_zero] at hwrite
  have htext : (buildServerResponse cfg m now text).msg.body.slice 40 (formattedReply text).length =
      formattedReply text := Buf.slice_write hfit
  rw [CombinedMessage.wire, hnat, Buf.take_add, htext, show 40 = 8 + netNameLenPlus from rfl,
    Buf.take_add, htime, ← originalSender_reply]
  rfl

/-- **Replies carry nothing of their buffer** exactly where the bytes behind the server name
are zero; two buffers give the same bytes exactly where they agree on them. -/
theorem carriesNothing_iff (cfg : Config) (now : UInt64) (text : List UInt8) :
    (∀ m, CarriesNothing cfg m now text ↔ ∀ b ∈ staleBytes cfg m, b = 0) ∧
      ∀ m m', (buildServerResponse cfg m now text).msg.wire =
          (buildServerResponse cfg m' now text).msg.wire ↔
        staleBytes cfg m = staleBytes cfg m' := by
  have hpair : ∀ m m', (buildServerResponse cfg m now text).msg.wire =
      (buildServerResponse cfg m' now text).msg.wire ↔ staleBytes cfg m = staleBytes cfg m' := by
    intro m m'
    rw [wire_reply, wire_reply, List.append_cancel_left_eq, List.append_cancel_right_eq,
      List.append_cancel_left_eq, List.append_cancel_left_eq]
  have hlen : ∀ m, (staleBytes cfg m).length = netNameLenPlus - cfg.serverName.bytes.length := by
    intro m
    have hlt := cfg.serverName.lt
    unfold netNameLenPlus at hlt
    rw [staleBytes, Buf.slice]
    simp [netNameLenPlus, bodySize]
    omega
  have hzeros : ∀ m, (∀ b ∈ staleBytes cfg m, b = 0) ↔
      staleBytes cfg m = List.replicate (netNameLenPlus - cfg.serverName.bytes.length) 0 := by
    intro m
    rw [List.eq_replicate_iff, hlen]
    exact ⟨fun h => ⟨rfl, h⟩, fun h => h.2⟩
  have hzero : staleBytes cfg .zero =
      List.replicate (netNameLenPlus - cfg.serverName.bytes.length) 0 := by
    have hlt := cfg.serverName.lt
    unfold netNameLenPlus at hlt
    exact Buf.slice_zero (by unfold bodySize netNameLenPlus; omega)
  refine ⟨fun m => ?_, hpair⟩
  rw [CarriesNothing, hpair, hzero, originalSender_reply, senderField, List.append_cancel_left_eq,
    hzeros, and_self]

/-! ## Requests as buffers -/

/-- Over a command, a reply carries the bytes of the text that lie in the sender field behind
the server name. -/
theorem staleBytes_command {f : Frame} (hcode : f.code = .receivedServerCommand)
    (hfit : f.data.length ≤ bodySize) :
    (∀ b ∈ staleBytes cfg f.msg, b = 0) ↔ ∀ b ∈ (f.data.drop (8 + cfg.serverName.bytes.length)).take
      (netNameLenPlus - cfg.serverName.bytes.length), b = 0 := by
  have hbytes := Frame.bytes_msg (Frame.code_eq_receivedServerCommand.mp hcode).1.readsBody hfit
  rw [staleBytes, Buf.slice, hbytes, List.drop_append, List.take_append]
  simp only [List.mem_append, or_imp, forall_and]
  refine ⟨fun h => h.1, fun h => ⟨h, fun b hb => ?_⟩⟩
  exact List.eq_of_mem_replicate (List.mem_of_mem_drop (List.mem_of_mem_take hb))

/-- Over a chat message, a reply carries the end of a sender's name that is longer than the
server name. -/
theorem staleBytes_chat {msgLength nameSize : Nat} {name : List UInt8}
    (hsize : nameSize ≤ netNameLenPlus) :
    (∀ b ∈ staleBytes cfg (buildServerToClient m now msgLength name nameSize).msg, b = 0) ↔
      (cstr (name.take nameSize)).length ≤ cfg.serverName.bytes.length := by
  have hfield := @originalSender_serverToClient m now msgLength name nameSize hsize
  have hdrop : staleBytes cfg (buildServerToClient m now msgLength name nameSize).msg =
      (cstr (name.take nameSize) ++
        List.replicate (netNameLenPlus - (cstr (name.take nameSize)).length) 0).drop
          cfg.serverName.bytes.length := by
    have hle : (cstr (name.take nameSize)).length ≤ nameSize :=
      le_trans (length_cstr_le _) (List.length_take_le _ _)
    rw [staleBytes, Buf.slice, ← List.drop_drop, ← List.drop_take]
    refine congrArg (List.drop _) (hfield.trans ?_)
    have hzeros : nameSize - (cstr (name.take nameSize)).length + (netNameLenPlus - nameSize) =
        netNameLenPlus - (cstr (name.take nameSize)).length := by omega
    rw [strncpy, List.append_assoc, List.replicate_append_replicate, hzeros]
  rw [hdrop, List.drop_append]
  simp only [List.mem_append, or_imp, forall_and]
  constructor
  · rintro ⟨hname, -⟩
    by_contra hlong
    -- A C string has no NUL, so nothing of it may be left.
    obtain ⟨b, hb⟩ := List.exists_mem_of_ne_nil
      ((cstr (name.take nameSize)).drop cfg.serverName.bytes.length) (by simpa using hlong)
    exact zero_notMem_cstr _ (hname b hb ▸ List.mem_of_mem_drop hb)
  · intro hle
    refine ⟨fun b hb => ?_, fun b hb => List.eq_of_mem_replicate (List.mem_of_mem_drop hb)⟩
    rw [List.drop_eq_nil_of_le hle] at hb
    cases hb

/-- The notice of a pause, built over a long command, carries the command's text in its sender
field. -/
theorem not_carriesNothing_pause :
    let m := (Frame.text 37 (lit "/pause " ++ List.replicate 30 97)).msg
    let text := lit "admin has paused the server"
    (∃ h sv sv' r, Run (frameMachine .default) anyStep h sv ∧
      frameStep .default sv (.frame 1
        (.text 37 (lit "/pause " ++ List.replicate 30 97)) ⟨1, 0, [], []⟩) = some (sv', r) ∧
      Output.notify 5 (buildServerResponse .default m 0 text) ∈ r.out) ∧
    (buildServerResponse .default m 0 text).msg.originalSender =
      lit "Server_04" ++ List.replicate 20 97 ++ List.replicate 3 0 ∧
    ¬ CarriesNothing .default m 0 text := by
  refine ⟨?_, by decide +kernel, fun hcarries => absurd hcarries.2 (by decide +kernel)⟩
  obtain ⟨h, sv, sv', r, hrun, -, hstep, hout⟩ := Run.exists_step_of_replay
    (M := frameMachine .default) (G := anyStep)
    [.connect 1 1 5, .frame 1 (.login 10 (lit "Admin")) ⟨1, 0, [], []⟩]
    (.frame 1 (.text 37 (lit "/pause " ++ List.replicate 30 97)) ⟨1, 0, [], []⟩)
    (fun _ _ _ r => decide (Output.notify 5 (buildServerResponse .default
      (Frame.text 37 (lit "/pause " ++ List.replicate 30 97)).msg 0
        (lit "admin has paused the server")) ∈ r.out)) (by decide +kernel)
  exact ⟨h, sv, sv', r, hrun, hstep, of_decide_eq_true hout⟩

end LinuxChat
