import LinuxChat.Lib.LengthPrefix
import LinuxChat.Theorems.Lengths
import LinuxChat.Theorems.RoundTrip

/-!
# What arrives at a client

A client gets the messages of the server one after the other, in pieces that
TCP chooses, and can find them again only by the lengths in their headers.
Where the frames the server got announce what they bring, it can: whatever
messages of a run are sent to it and in whatever pieces they arrive, a reader
that goes by the lengths gets these messages, and each of them has all fields
of its type (`stream_readable`).
-/

namespace LinuxChat

open CMem Trace ByteOrder LengthPrefix

/-- Three bytes of header, and the length of the body in the last two of them. -/
def messageFormat : Format UInt8 where
  header := headerSize
  pos := Nat.succ_pos 2
  body header := (MessageHeader.ofWire header).length.toNat

/-- A message that lies inside its object is sent as a frame. -/
theorem isFrame_wire {m : CombinedMessage}
    (hfit : headerSize + m.header.length.toNat ≤ combinedSize) : messageFormat.IsFrame m.wire := by
  have hheader : m.wire.take headerSize = m.header.wire :=
    List.take_left' (MessageHeader.length_wire _)
  have hbody : m.header.length.toNat ≤ bodySize := Nat.le_of_add_le_add_left hfit
  show headerSize + (MessageHeader.ofWire (m.wire.take headerSize)).length.toNat = m.wire.length
  rw [hheader, MessageHeader.ofWire_wire, CombinedMessage.wire, List.length_append,
    MessageHeader.length_wire, List.length_take_of_le (by rwa [Buf.length_bytes])]

/-! ## Every message has a builder -/

/-- What the builders of network.c make. -/
inductive Built : Outgoing → Prop
  | loginResponse (cfg code) : Built (buildLoginResponse cfg code)
  | userAdded (m now name size use) : Built (buildUserAdded m now name size use)
  | userRemoved (m now code name size) : Built (buildUserRemoved m now code name size)
  | serverToClient (m now msgLength name nameSize) :
      Built (buildServerToClient m now msgLength name nameSize)
  | serverResponse (cfg m now text) : Built (buildServerResponse cfg m now text)
  | serverResponseSpecial (m now name text) : Built (buildServerResponseSpecial m now name text)

variable {cfg : Config} {h : History FrameEvent Handled} {sv sv' : Server} {ev : FrameEvent}
  {r : Handled} {o : Outgoing} {env : Env} {u : User}

/-- The replies to a command. -/
theorem built_command {m : CombinedMessage} {x : Output}
    (hx : x ∈ (handleCommand cfg env u sv m).out) (hxo : x.outgoing? = some o) : Built o := by
  have hreply : ∀ text, x ∈ (replyOnly cfg env u sv m text).out → Built o := by
    intro text hx
    rw [List.mem_singleton.mp hx] at hxo
    cases hxo
    exact .serverResponse ..
  have hall : ∀ text, x ∈ notifyAll sv.users (buildServerResponse cfg m env.now text) →
      Built o := by
    intro text hx
    obtain ⟨e, -, rfl⟩ := List.mem_map.mp hx
    cases hxo
    exact .serverResponse ..
  unfold handleCommand at hx
  split at hx
  · split at hx
    · unfold handleKick at hx
      split at hx
      · rw [List.mem_singleton.mp hx] at hxo
        cases hxo
      · exact hreply _ hx
    · unfold handlePause at hx
      split at hx
      · exact hreply _ hx
      · rcases List.mem_cons.mp hx with rfl | hx
        · cases hxo
        · exact hall _ hx
    · unfold handleResume at hx
      split at hx
      · rcases List.mem_append.mp hx with hx | hx
        · exact hall _ hx
        · rw [List.mem_singleton.mp hx] at hxo
          cases hxo
      · exact hreply _ hx
    · obtain ⟨_, -, rfl⟩ := List.mem_map.mp hx
      cases hxo
      exact .serverResponseSpecial ..
    all_goals exact hreply _ hx
  · exact hreply _ hx

/-- The messages of a step. -/
theorem built_step (hstep : frameStep cfg sv ev = some (sv', r)) (ho : o ∈ messages r) :
    Built o := by
  obtain ⟨x, hx, hxo⟩ := mem_messages.mp ho
  cases ev with
  | connect p thread sock =>
      rw [(frameStep_connect hstep).2.2.2] at hx
      cases hx
  | deliver =>
      rw [(frameStep_deliver hstep).2] at hx
      cases hx
  | disconnect p status env =>
      obtain ⟨u, -, -, rfl, -⟩ := frameStep_disconnect hstep
      simp only [clientTeardown, List.mem_append, List.mem_ite_nil_right, List.mem_map,
        List.mem_singleton] at hx
      rcases hx with ⟨-, e, -, rfl⟩ | rfl
      · cases hxo
        exact .userRemoved ..
      · cases hxo
  | frame p f env =>
      obtain ⟨u, -, rfl, -⟩ := frameStep_frame hstep
      rcases mem_out_frame hx with rfl | rfl | hx
      · cases hxo
      · cases hxo
      cases hcode : f.code with
      | receivedLogin =>
          rw [hcode, handleFrame_login] at hx
          split at hx
          · simp only [loginAccepted, List.mem_cons, List.mem_map] at hx
            rcases hx with rfl | rfl | rfl | ⟨y, hy, rfl⟩
            · cases hxo
              exact .loginResponse ..
            · cases hxo
            · cases hxo
              exact .userAdded ..
            · cases hxo
              obtain ⟨e, -, rfl⟩ := List.mem_map.mp hy
              exact .userAdded ..
          · rw [List.mem_singleton.mp hx] at hxo
            cases hxo
            exact .loginResponse ..
      | receivedMessage =>
          rw [hcode] at hx
          simp only [handleFrame, handleMessage, List.mem_cons] at hx
          rcases hx with rfl | hx
          · cases hxo
            exact .serverToClient ..
          · split at hx
            · cases hx
            · rw [List.mem_singleton.mp hx] at hxo
              cases hxo
              exact .serverResponse ..
      | receivedServerCommand =>
          rw [hcode] at hx
          exact built_command hx hxo
      | _ =>
          rw [hcode] at hx
          cases hx

/-! ## Every message has its fields -/

/-- The fixed fields of a type, if it is sent. -/
def fixedFields (type : UInt8) : Option Nat :=
  if type = MessageType.loginResponse.code then some 5
  else if type = MessageType.userAdd.code then some 8
  else if type = MessageType.userRemove.code then some 9
  else if type = MessageType.serverToClient.code then some 40
  else none

/-- A body that has the fixed fields of its type can be read. -/
theorem isSome_decodeBody (order : Order) {type : UInt8} {body : List UInt8} {n : Nat}
    (htype : fixedFields type = some n) (hlen : n ≤ body.length) :
    (decodeBody order type body).isSome = true := by
  unfold fixedFields at htype
  unfold decodeBody
  split at htype
  · rename_i hlogin
    cases htype
    rw [if_pos ⟨hlogin, hlen⟩]
    rfl
  · rename_i hlogin
    rw [if_neg fun hand => hlogin hand.1]
    split at htype
    · rename_i hadd
      cases htype
      rw [if_pos ⟨hadd, hlen⟩]
      rfl
    · rename_i hadd
      rw [if_neg fun hand => hadd hand.1]
      split at htype
      · rename_i hremove
        cases htype
        rw [if_pos ⟨hremove, hlen⟩]
        rfl
      · rename_i hremove
        rw [if_neg fun hand => hremove hand.1]
        split at htype
        · rename_i hchat
          cases htype
          rw [if_pos ⟨hchat, hlen⟩]
          rfl
        · cases htype

/-- A builder encodes at least the fixed fields. -/
theorem Built.fixedFields_le (hbuilt : Built o) :
    ∃ n, fixedFields o.msg.header.type = some n ∧ n ≤ o.encoded := by
  cases hbuilt with
  | loginResponse cfg code => exact ⟨5, rfl, Nat.le_add_right _ _⟩
  | userAdded m now name size use => exact ⟨8, rfl, Nat.le_add_right _ _⟩
  | userRemoved m now code name size => exact ⟨9, rfl, Nat.le_add_right _ _⟩
  | serverToClient m now msgLength name nameSize => exact ⟨40, rfl, Nat.le_add_right _ _⟩
  | serverResponse cfg m now text => exact ⟨40, rfl, Nat.le_add_right _ _⟩
  | serverResponseSpecial m now name text => exact ⟨40, rfl, Nat.le_add_right _ _⟩

/-- What a builder makes, with its real length, can be read. -/
theorem Built.isSome_decode (hbuilt : Built o) (hok : o.LengthOk) (order : Order) :
    (decode order o.msg.wire).isSome = true := by
  obtain ⟨n, htype, hle⟩ := hbuilt.fixedFields_le
  obtain ⟨hlen, hfit⟩ := hok
  have hbody : o.encoded ≤ bodySize := by
    rw [← hlen]
    exact Nat.le_of_add_le_add_left hfit
  rw [decode_message hlen hbody]
  refine isSome_decodeBody order htype ?_
  rw [List.length_take_of_le (by rwa [Buf.length_bytes])]
  exact hle

/-! ## The stream -/

/-- A message that was handed out in a run with honest lengths is a frame that can be read. -/
theorem readable_of_mem (hrun : Run (frameMachine cfg) honestLengths h sv)
    (ho : ∃ e ∈ h, o ∈ messages e.2) (order : Order) :
    messageFormat.IsFrame o.msg.wire ∧ (decode order o.msg.wire).isSome = true := by
  obtain ⟨⟨ev, r⟩, he, ho⟩ := ho
  obtain ⟨h₁, h₂, rfl⟩ := List.append_of_mem he
  obtain ⟨sv₁, sv₂, hrun₁, hg, hstep⟩ := Run.of_append_cons hrun
  have hok : o.LengthOk :=
    lengthOk_step (fun p u hu => run_storedLength hrun₁ hu) hg hstep ho
  exact ⟨isFrame_wire hok.2, (built_step hstep ho).isSome_decode hok order⟩

/-- **Whatever messages of an honest run are sent to a client, and in whatever pieces their bytes
arrive, the reader has at any time got the first of them, each with all its fields, and holds a
part of the next; when all bytes are there, it has got them all.** -/
theorem stream_readable (hrun : Run (frameMachine cfg) honestLengths h sv) (order : Order)
    {sent : List Outgoing} (hsent : ∀ o ∈ sent, ∃ e ∈ h, o ∈ messages e.2)
    {pieces : List (List UInt8)}
    (harrived : pieces.flatten <+: (sent.map fun o => o.msg.wire).flatten) :
    ∃ got rest, sent = got ++ rest ∧
      (messageFormat.feedAll pieces).1 = got.map (fun o => o.msg.wire) ∧
      (messageFormat.feedAll pieces).2 <+: (rest.map fun o => o.msg.wire).flatten ∧
      ¬ messageFormat.Ready (messageFormat.feedAll pieces).2 ∧
      (pieces.flatten = (sent.map fun o => o.msg.wire).flatten → rest = []) ∧
      ∀ o ∈ got, (decode order o.msg.wire).isSome = true := by
  have hframes : ∀ f ∈ sent.map (fun o => o.msg.wire), messageFormat.IsFrame f := by
    intro f hf
    obtain ⟨o, ho, rfl⟩ := List.mem_map.mp hf
    exact (readable_of_mem hrun (hsent o ho) order).1
  rw [Format.feedAll_eq]
  obtain ⟨later, hcut, hpart⟩ := Format.split_starts hframes harrived
  obtain ⟨got, rest, rfl, hgot, hrest⟩ := List.map_eq_append_iff.mp hcut
  refine ⟨got, rest, rfl, hgot.symm, by rwa [hrest], (Format.split_spec _).2, ?_, ?_⟩
  · intro hall
    rw [hall, Format.split_of_frames hframes] at hgot
    have hlen := congrArg List.length hgot
    rw [List.length_map, List.length_map, List.length_append] at hlen
    exact List.eq_nil_of_length_eq_zero (by omega)
  · intro o ho
    exact (readable_of_mem hrun (hsent o (List.mem_append_left _ ho)) order).2

/-- Everything that is sent while two clients log in, one speaks and leaves, in two pieces. -/
theorem stream_readable_farewell : ∃ h sv, Run (frameMachine .default) honestLengths h sv ∧
    ∃ sent : List Outgoing, sent = (h.flatMap fun e => messages e.2) ∧ sent.length = 7 ∧
      ∀ stream, stream = (sent.map fun o => o.msg.wire).flatten →
        (messageFormat.feedAll [stream.take 50, stream.drop 50]).1 =
          sent.map fun o => o.msg.wire := by
  obtain ⟨h, sv, hrun, hseven⟩ := Run.exists_of_replay
    (M := frameMachine .default) (G := honestLengths)
    [.connect 1 1 5, .connect 2 2 6, .frame 1 (.login 8 (lit "bob")) ⟨1, 0, [], []⟩,
      .frame 2 (.login 10 (lit "alice")) ⟨2, 0, [], []⟩,
      .frame 1 (.text 5 (lit "hello")) ⟨1, 0, [], []⟩, .disconnect 1 0 ⟨1, 0, [], []⟩]
    (fun h _ => (h.flatMap fun e => messages e.2).length == 7) (by decide +kernel)
  refine ⟨h, sv, hrun, _, rfl, beq_iff_eq.mp hseven, ?_⟩
  rintro stream rfl
  generalize hsent : (h.flatMap fun e => messages e.2) = sent
  have hmem : ∀ o ∈ sent, ∃ e ∈ h, o ∈ messages e.2 := by
    intro o ho
    rw [← hsent] at ho
    exact List.mem_flatMap.mp ho
  generalize hstream : (sent.map fun o => o.msg.wire).flatten = stream
  have hpieces : [stream.take 50, stream.drop 50].flatten = stream := by
    rw [List.flatten_cons, List.flatten_singleton, List.take_append_drop]
  have harrived : [stream.take 50, stream.drop 50].flatten <+:
      (sent.map fun o => o.msg.wire).flatten := ⟨[], by rw [List.append_nil, hpieces, hstream]⟩
  obtain ⟨got, rest, heq, hgot, -, -, hall, -⟩ := stream_readable hrun .little hmem harrived
  rw [hall (hpieces.trans hstream.symm), List.append_nil] at heq
  rw [hgot, heq]

end LinuxChat
