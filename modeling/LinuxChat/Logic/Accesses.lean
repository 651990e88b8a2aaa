import LinuxChat.Logic.Builders
import LinuxChat.Logic.FrameSpec

/-!
# Which accesses stay inside

For each function of a pass, what keeps its accesses inside their arrays.
Names are never the trouble once they are stored short (`User.Short`): what
remains are the copies that take a length from a frame, and the strings that
end in bytes the request has left in the buffer (`EndsBehind`).
-/

namespace LinuxChat

open CMem

/-! ## Lists of accesses -/

/-- All of them stay inside their arrays. -/
def Inside (l : List Access) : Prop := ∀ a ∈ l, a.inside = true

theorem oob_eq_nil {r : Handled} : r.oob = [] ↔ Inside r.accesses := by
  simp [Handled.oob, List.filter_eq_nil_iff, Inside]

@[simp] theorem inside_nil : Inside [] := List.forall_mem_nil _

@[simp] theorem inside_cons {a : Access} {l : List Access} :
    Inside (a :: l) ↔ a.inside = true ∧ Inside l := List.forall_mem_cons

@[simp] theorem inside_append {l l' : List Access} :
    Inside (l ++ l') ↔ Inside l ∧ Inside l' := List.forall_mem_append

@[simp] theorem inside_flatMap {α : Type} {l : List α} {g : α → List Access} :
    Inside (l.flatMap g) ↔ ∀ x ∈ l, Inside (g x) := by
  simp only [Inside, List.mem_flatMap]
  exact ⟨fun h x hx a ha => h a ⟨x, hx, ha⟩, fun h a ⟨x, hx, ha⟩ => h x hx a ha⟩

@[simp] theorem inside_mk {array : CArray} {n : Nat} :
    (Access.mk array n).inside = true ↔ n ≤ array.size := decide_eq_true_iff

@[simp] theorem inside_string {array : CArray} {content : List UInt8} :
    (Access.string array content).inside = true ↔ (cstr content).length < array.size :=
  decide_eq_true_iff

@[simp] theorem inside_source {array : CArray} {content : List UInt8} {n : Nat} :
    (Access.source array content n).inside = true ↔
      min n ((cstr content).length + 1) ≤ array.size := decide_eq_true_iff

/-! ## Stored names -/

/-- The size of the stored name fits every name field, and the byte at index 30, which the
terminator of the longest name has, is clear. -/
structure User.Short (u : User) : Prop where
  size : u.nameLength ≤ netNameLen
  clear : u.name.slice 30 1 = [0]

theorem User.short_fresh (thread sock : Nat) : (User.fresh thread sock).Short :=
  ⟨Nat.zero_le _, rfl⟩

/-- The C string in a clear array ends before index 31. -/
theorem User.Short.length_cname {u : User} (hu : u.Short) :
    (cstr u.name.bytes).length < netNameLen := by
  have hsplit : u.name.bytes.take 31 = u.name.bytes.take 30 ++ [0] := by
    rw [← hu.clear]
    exact Buf.take_add _ 30 1
  have hz : (0 : UInt8) ∈ u.name.bytes.take 31 := by simp [hsplit]
  rw [← List.take_append_drop 31 u.name.bytes, cstr_append_of_mem hz]
  refine lt_of_lt_of_le (length_cstr_lt hz) ?_
  rw [List.length_take]
  exact Nat.min_le_left _ _

theorem User.Short.length_cstr_take {u : User} (hu : u.Short) (n : Nat) :
    (cstr (u.name.bytes.take n)).length < netNameLen := by
  rw [cstr_take]
  exact lt_of_le_of_lt (List.length_take_le' _ _) hu.length_cname

/-- Behind the end of a short string `strncpy` pads with zeros. -/
theorem drop_strncpy {src : List UInt8} {n k : Nat} (h : (cstr (src.take n)).length ≤ k) :
    (strncpy src n).drop k = List.replicate (n - k) 0 := by
  rw [strncpy, List.drop_append, List.drop_eq_nil_of_le h, List.nil_append, List.drop_replicate]
  congr 1
  omega

/-- A login keeps names short. -/
theorem User.Short.login {u : User} (hu : u.Short) {name : List UInt8} {size : Nat}
    (hsize : size ≤ netNameLen) (hname : (cstr (name.take size)).length < netNameLen) :
    (u.login name size).Short := by
  refine ⟨hsize, ?_⟩
  unfold netNameLen at hsize hname
  show (u.name.write 0 (strncpy name size)).slice 30 1 = [0]
  by_cases hlt : size ≤ 30
  · rw [Buf.slice_write_of_ge (by rw [length_strncpy]; omega) (by decide)]
    exact hu.clear
  · -- A copy of 31 bytes ends in its own terminator.
    obtain rfl : size = 31 := by omega
    rw [Buf.slice, ← Nat.zero_add 30, ← List.drop_drop, List.drop_zero,
      Buf.bytes_write (by rw [length_strncpy]; decide), List.take_zero, List.nil_append,
      List.drop_append_of_le_length (by rw [length_strncpy]; decide),
      drop_strncpy (by omega)]
    rfl

/-! ## Builders -/

theorem printMessageInfo_loginResponse {m : CombinedMessage}
    (h : m.header.type = MessageType.loginResponse.code) :
    printMessageInfoAccesses m =
      [.string .authenticationName (m.body.slice 5 netNameLen)] := if_pos (.inr h)

theorem printMessageInfo_serverToClient {m : CombinedMessage}
    (h : m.header.type = MessageType.serverToClient.code) :
    printMessageInfoAccesses m = [.string .originalSender m.originalSender,
      .string .serverText (m.body.slice 40 netTextLen)] := by
  simp [printMessageInfoAccesses, h, MessageType.code]

theorem printMessageInfo_userAdd {m : CombinedMessage}
    (h : m.header.type = MessageType.userAdd.code) :
    printMessageInfoAccesses m = [.string .userAddedName (m.body.slice 8 netNameLen)] := by
  simp [printMessageInfoAccesses, h, MessageType.code]

theorem printMessageInfo_userRemove {m : CombinedMessage}
    (h : m.header.type = MessageType.userRemove.code) :
    printMessageInfoAccesses m = [.string .userRemovedName (m.body.slice 9 netNameLen)] := by
  simp [printMessageInfoAccesses, h, MessageType.code]

theorem length_slice {n k len : Nat} (b : Buf n) (h : k + len ≤ n) :
    (b.slice k len).length = len := by
  rw [Buf.slice, List.length_take, List.length_drop, Buf.length_bytes]
  omega

/-- A region holds a string that ends in it if it holds a NUL. -/
theorem length_cstr_lt_iff {mem : List UInt8} : (cstr mem).length < mem.length ↔ 0 ∈ mem :=
  ⟨zero_mem_of_length_cstr_lt, length_cstr_lt⟩

/-- The answer to a login has room for a server name of up to 30 bytes. -/
theorem inside_loginAnswer {cfg : Config} {code : LoginResponseCode} :
    Inside (loginAnswerAccesses cfg code) ↔ cfg.serverName.bytes.length < netNameLen := by
  have hlt := cfg.serverName.lt
  have hcstr : cstr cfg.serverName.bytes = cfg.serverName.bytes :=
    cstr_eq_self cfg.serverName.nulFree
  constructor
  · intro h
    simp only [loginAnswerAccesses, buildLoginResponseAccesses, inside_append, inside_cons,
      inside_mk] at h
    exact h.1.2.1
  · intro h
    have hslice : cstr ((buildLoginResponse cfg code).msg.body.slice 5 netNameLen) =
        cfg.serverName.bytes := by
      have hfit : (cfg.serverName.bytes ++ [0]).length ≤ netNameLen := by
        rw [List.length_append, List.length_singleton]
        exact h
      simp only [buildLoginResponse]
      rw [Buf.slice_write_append hfit (by decide), List.append_assoc,
        cstr_append_of_notMem cfg.serverName.nulFree, List.singleton_append, cstr_cons_zero,
        List.append_nil]
    have hprint : Inside (printMessageInfoAccesses (buildLoginResponse cfg code).msg) := by
      rw [printMessageInfo_loginResponse rfl]
      simpa [hslice, CArray.size] using h
    have hsend := (lengthOk_loginResponse cfg code).2
    simp only [loginAnswerAccesses, buildLoginResponseAccesses, networkSendAccesses, inside_append,
      inside_cons, inside_mk, inside_string, inside_nil, hcstr, and_true]
    exact ⟨⟨hlt, h, hprint⟩, hprint, hsend⟩

/-- The name field of a `UserAdd` for a short name. -/
theorem inside_printUserAdded {u : User} (hu : u.Short) (now : UInt64) (use : Bool) :
    (cstr ((buildUserAdded .zero now u.name.bytes u.nameLength use).msg.body.slice 8
        netNameLen)).length < netNameLen ∧
      Inside (printMessageInfoAccesses (buildUserAdded .zero now u.name.bytes u.nameLength use).msg)
      := by
  have hsize := hu.size
  have hslice : (cstr ((buildUserAdded .zero now u.name.bytes u.nameLength use).msg.body.slice 8
      netNameLen)).length < netNameLen := by
    rw [Buf.slice, drop_userAdded (by unfold netNameLen at hsize; unfold bodySize; omega),
      cstr_take, cstr_append_replicate_zero, cstr_strncpy]
    exact lt_of_le_of_lt (List.length_take_le' _ _) (hu.length_cstr_take _)
  refine ⟨hslice, ?_⟩
  rw [printMessageInfo_userAdd rfl]
  simpa [CArray.size] using hslice

/-- A `UserAdd` for a short name, as it is built. -/
theorem inside_userAdded {u : User} (hu : u.Short) (now : UInt64) (use : Bool) :
    Inside (userAddedAccesses now u use) := by
  obtain ⟨hslice, hprint⟩ := inside_printUserAdded hu now use
  have hsize := hu.size
  have hname := hu.length_cname
  simp only [userAddedAccesses, buildUserAddedAccesses, inside_cons, inside_source, inside_mk,
    inside_string, CArray.size]
  refine ⟨?_, hsize, hslice, hprint⟩
  unfold netNameLen at hname
  unfold netNameLenPlus
  omega

/-- Sending what `build_User_Added` has built stays inside, too. -/
theorem inside_sendUserAdded {u : User} (hu : u.Short) (now : UInt64) (use : Bool) :
    Inside (networkSendAccesses (buildUserAdded .zero now u.name.bytes u.nameLength use).msg) := by
  have hsize := hu.size
  have hok := (@lengthOk_userAdded now u.name.bytes u.nameLength use
    (by unfold netNameLen at hsize; unfold bodySize; omega)).2
  simp only [networkSendAccesses, inside_append, inside_cons, inside_mk, inside_nil, and_true]
  exact ⟨(inside_printUserAdded hu now use).2, hok⟩

/-- The loop over the users already there, all of whose names are short. -/
theorem inside_snapshot {now : UInt64} {l : UserList} {p : UserPtr}
    (hl : ∀ q u, l.get? q = some u → u.Short) : Inside (snapshotAccesses now l p) := by
  simp only [snapshotAccesses, inside_flatMap, inside_append]
  rintro ⟨q, u⟩ hmem
  have hu : u.Short := hl q u (UserList.mem_loggedInUsers.mp (List.mem_filter.mp hmem).1).1
  exact ⟨inside_userAdded hu now false, inside_sendUserAdded hu now false⟩

/-- A loop that compares short names. -/
theorem inside_compareNames {l : UserList} {name : List UInt8}
    (hl : ∀ q u, l.get? q = some u → u.Short) : Inside (compareNamesAccesses l name) := by
  intro a ha
  obtain ⟨e, he, rfl⟩ := List.mem_map.mp ha
  have hu : e.2.Short := hl e.1 e.2 (Table.get?_eq_some_iff.mpr (List.mem_of_mem_take he))
  rw [inside_string]
  exact lt_trans hu.length_cname (by decide)

/-- A `UserRemove` for a short name, over a cleared message, as it is built and as it is sent. -/
theorem inside_userRemoved {u : User} (hu : u.Short) (now : UInt64)
    (code : ClientDisconnectCode) :
    Inside (buildUserRemovedAccesses .zero now code u.name.bytes u.nameLength) ∧
      Inside (networkSendAccesses (buildUserRemoved .zero now code u.name.bytes u.nameLength).msg)
      := by
  have hsize := hu.size
  have hname := hu.length_cname
  unfold netNameLen at hsize hname
  have hslice : (cstr ((buildUserRemoved .zero now code u.name.bytes u.nameLength).msg.body.slice
      9 netNameLen)).length < netNameLen := by
    simp only [buildUserRemoved]
    rw [Buf.slice, Buf.drop_write (by rw [length_strncpy]; unfold bodySize; omega), length_strncpy,
      Buf.drop_write_of_le (by rw [List.length_singleton]; omega) (by unfold bodySize; omega),
      Buf.drop_write_of_le (by simp; omega) (by unfold bodySize; omega), CombinedMessage.zero,
      Buf.bytes_zero, List.drop_replicate, cstr_take, cstr_append_replicate_zero, cstr_strncpy]
    exact lt_of_le_of_lt (List.length_take_le' _ _) (hu.length_cstr_take _)
  have hprint : Inside (printMessageInfoAccesses
      (buildUserRemoved .zero now code u.name.bytes u.nameLength).msg) := by
    rw [printMessageInfo_userRemove rfl]
    simpa [CArray.size] using hslice
  have hlen : (buildUserRemoved .zero now code u.name.bytes u.nameLength).msg.header.length.toNat =
      9 + u.nameLength := toNat_ofNat_length (by unfold bodySize; omega)
  simp only [buildUserRemovedAccesses, networkSendAccesses, inside_append, inside_cons,
    inside_source, inside_mk, inside_nil, and_true, hlen]
  refine ⟨⟨?_, hsize, hprint⟩, hprint, ?_⟩
  · show min _ _ ≤ 32
    omega
  · show 3 + (9 + u.nameLength) ≤ 555
    omega

/-! ## Chat messages -/

/-- The text field of a chat message: the text, and zeros. -/
theorem slice_text_serverToClient {m : CombinedMessage} {now : UInt64} {msgLength : Nat}
    {name : List UInt8} {nameSize : Nat} (hname : nameSize ≤ netNameLenPlus)
    (hfit : msgLength ≤ netTextLen) (hclear : m.body.bytes.drop 512 = List.replicate 40 0) :
    (buildServerToClient m now msgLength name nameSize).msg.body.slice 40 netTextLen =
      strncpy m.text msgLength ++ List.replicate (netTextLen - msgLength) 0 := by
  unfold netNameLenPlus at hname
  unfold netTextLen at hfit
  simp only [buildServerToClient]
  rw [Buf.slice_write_append (by rw [length_strncpy]; exact hfit) (by decide), length_strncpy,
    Buf.slice_write_of_ge (by rw [length_strncpy]; omega) (by unfold bodySize; omega),
    Buf.slice_write_of_ge (by simp; omega) (by unfold bodySize; omega)]
  congr 1
  -- 512 bytes are cleared, and behind them the request has left nothing.
  have hzero :
      (m.body.write 0 (List.replicate netTextLen 0)).bytes = List.replicate bodySize 0 := by
    rw [Buf.bytes_write (by rw [List.length_replicate]; decide), List.take_zero, List.nil_append,
      List.length_replicate, Nat.zero_add, netTextLen, hclear, List.replicate_append_replicate,
      bodySize]
  rw [Buf.slice, hzero, List.drop_replicate, List.take_replicate]
  congr 1
  unfold bodySize netTextLen
  omega

/-- A chat message for a short name stays inside exactly if the text fits its field with a NUL. -/
theorem inside_serverToClient {m : CombinedMessage} {now : UInt64} {msgLength : Nat} {u : User}
    (hu : u.Short) (hclear : msgLength ≤ netTextLen → m.body.bytes.drop 512 = List.replicate 40 0)
    (htext : cstr (m.text.take msgLength) = cstr m.text) :
    Inside (buildServerToClientAccesses m now msgLength u.name.bytes u.nameLength) ↔
      msgLength ≤ netTextLen ∧ (cstr m.text).length < netTextLen := by
  have hsize := hu.size
  have hname := hu.length_cname
  have hplus : u.nameLength ≤ netNameLenPlus := le_trans hsize (by decide)
  have hsender : (cstr (buildServerToClient m now msgLength u.name.bytes
      u.nameLength).msg.originalSender).length < netNameLenPlus := by
    rw [cstr_originalSender hplus]
    exact lt_trans (hu.length_cstr_take _) (by decide)
  have hprint : msgLength ≤ netTextLen →
      (Inside (printMessageInfoAccesses
        (buildServerToClient m now msgLength u.name.bytes u.nameLength).msg) ↔
        (cstr m.text).length < netTextLen) := by
    intro hfit
    have hslice : cstr ((buildServerToClient m now msgLength u.name.bytes
        u.nameLength).msg.body.slice 40 netTextLen) = cstr m.text := by
      rw [slice_text_serverToClient hplus hfit (hclear hfit), cstr_append_replicate_zero,
        cstr_strncpy, htext]
    rw [printMessageInfo_serverToClient rfl]
    simp [CArray.size, hslice, hsender]
  have hsource : min u.nameLength ((cstr u.name.bytes).length + 1) ≤ netNameLenPlus :=
    le_trans (Nat.min_le_left _ _) hplus
  simp only [buildServerToClientAccesses, inside_cons, inside_mk, inside_source, CArray.size,
    le_refl, true_and, hsource, hplus]
  constructor
  · rintro ⟨-, hfit, hp⟩
    exact ⟨hfit, (hprint hfit).mp hp⟩
  · rintro ⟨hfit, hlt⟩
    exact ⟨le_trans (Nat.min_le_left _ _) hfit, hfit, (hprint hfit).mpr hlt⟩

/-! ## Replies -/

/-- In a body, the sender and the text of a reply each have a NUL behind them in their field. -/
def EndsBehind (body sender text : List UInt8) : Prop :=
  0 ∈ (body.drop (8 + sender.length)).take (32 - sender.length) ∧
    0 ∈ (body.drop (40 + text.length)).take (512 - text.length)

instance (body sender text : List UInt8) : Decidable (EndsBehind body sender text) :=
  inferInstanceAs (Decidable (_ ∧ _))

theorem zero_mem_append_iff {a b : List UInt8} (ha : 0 ∉ a) : 0 ∈ a ++ b ↔ 0 ∈ b := by
  simp [ha]

/-- The strings of a reply end in their fields exactly if the body it was built in has a NUL
behind each. -/
theorem inside_printReply {m msg : CombinedMessage} {now : UInt64} {sender text : List UInt8}
    (htype : msg.header.type = MessageType.serverToClient.code)
    (hbody : msg.body = replyBody m now sender text) (hsender : 0 ∉ sender) (htext : 0 ∉ text)
    (hslen : sender.length ≤ 32) (htlen : text.length ≤ 512) :
    Inside (printMessageInfoAccesses msg) ↔ EndsBehind m.body.bytes sender text := by
  have hs : msg.originalSender = sender ++ m.body.slice (8 + sender.length) (32 - sender.length)
      := by
    rw [CombinedMessage.originalSender, hbody, replyBody, netNameLenPlus,
      Buf.slice_write_of_le (by decide) (by decide), Buf.slice_write_append hslen (by decide),
      Buf.slice_write_of_ge (by simp) (by unfold bodySize; omega)]
  have ht : msg.body.slice 40 netTextLen =
      text ++ m.body.slice (40 + text.length) (512 - text.length) := by
    rw [hbody, replyBody, netTextLen, Buf.slice_write_append htlen (by decide),
      Buf.slice_write_of_ge (by omega) (by unfold bodySize; omega),
      Buf.slice_write_of_ge (by simp; omega) (by unfold bodySize; omega)]
  have hslen' : (sender ++ m.body.slice (8 + sender.length) (32 - sender.length)).length = 32 := by
    rw [List.length_append, length_slice _ (by unfold bodySize; omega)]
    omega
  have htlen' : (text ++ m.body.slice (40 + text.length) (512 - text.length)).length = 512 := by
    rw [List.length_append, length_slice _ (by unfold bodySize; omega)]
    omega
  have hfirst : (cstr msg.originalSender).length < 32 ↔
      0 ∈ m.body.slice (8 + sender.length) (32 - sender.length) := by
    rw [hs, ← zero_mem_append_iff hsender, ← length_cstr_lt_iff, hslen']
  have hsecond : (cstr (msg.body.slice 40 netTextLen)).length < 512 ↔
      0 ∈ m.body.slice (40 + text.length) (512 - text.length) := by
    rw [ht, ← zero_mem_append_iff htext, ← length_cstr_lt_iff, htlen']
  rw [printMessageInfo_serverToClient htype]
  simp only [inside_cons, inside_string, inside_nil, and_true]
  exact and_congr hfirst hsecond

/-- The format of a reply is expanded and copied inside the arrays. -/
theorem inside_formatted (text : List UInt8) : Inside (formattedAccesses text) := by
  have hle := length_formatted_le text
  have htake : (text.take (netTextLen - 1)).length ≤ netTextLen - 1 := List.length_take_le _ _
  unfold netTextLen at hle htake
  simp only [formattedAccesses, inside_cons, inside_mk, inside_string, inside_nil, and_true,
    CArray.size, cstr_cstr, netTextLen]
  omega

/-- A reply, as it is built and as it is sent, stays inside exactly if its strings end in their
fields. -/
theorem inside_serverResponse {cfg : Config} {m : CombinedMessage} {now : UInt64}
    {text : List UInt8} :
    (Inside (buildServerResponseAccesses cfg m now text) ↔
      EndsBehind m.body.bytes cfg.serverName.bytes (cstr (text.take (netTextLen - 1)))) ∧
    (Inside (networkSendAccesses (buildServerResponse cfg m now text).msg) ↔
      EndsBehind m.body.bytes cfg.serverName.bytes (cstr (text.take (netTextLen - 1)))) := by
  have hlt := cfg.serverName.lt
  have hcstr : cstr cfg.serverName.bytes = cfg.serverName.bytes :=
    cstr_eq_self cfg.serverName.nulFree
  have hle := length_formatted_le text
  have hprint := @inside_printReply m (buildServerResponse cfg m now text).msg now
    cfg.serverName.bytes (cstr (text.take (netTextLen - 1))) rfl rfl cfg.serverName.nulFree
    (zero_notMem_cstr _) (le_of_lt hlt) (le_trans hle (Nat.sub_le _ _))
  constructor
  · simp only [buildServerResponseAccesses, inside_cons, inside_append, inside_mk, inside_string,
      hcstr, hprint]
    exact ⟨fun h => h.2.2.2, fun h => ⟨hlt, le_of_lt hlt, inside_formatted text, h⟩⟩
  · have hsend := (lengthOk_serverResponse cfg m now text).2
    simp only [networkSendAccesses, inside_append, inside_cons, inside_mk, inside_nil, and_true,
      hprint]
    exact ⟨fun h => h.1, fun h => ⟨h, hsend⟩⟩

/-- A reply with a sender of its own. -/
theorem inside_serverResponseSpecial {m : CombinedMessage} {now : UInt64}
    {name text : List UInt8} (hname : 0 ∉ name) (hlen : name.length ≤ 32) :
    Inside (buildServerResponseSpecialAccesses m now name text ++
        networkSendAccesses (buildServerResponseSpecial m now name text).msg) ↔
      EndsBehind m.body.bytes name (cstr (text.take (netTextLen - 1))) := by
  have hle := length_formatted_le text
  have hprint := @inside_printReply m (buildServerResponseSpecial m now name text).msg now name
    (cstr (text.take (netTextLen - 1))) rfl rfl hname (zero_notMem_cstr _) hlen
    (le_trans hle (Nat.sub_le _ _))
  have hsend := (lengthOk_serverResponseSpecial m now name text).2
  simp only [buildServerResponseSpecialAccesses, networkSendAccesses, inside_append, inside_cons,
    inside_mk, inside_nil, and_true, hprint]
  exact ⟨fun h => h.2.1, fun h => ⟨⟨hlen, inside_formatted text, h⟩, h, hsend⟩⟩

/-- A copied and padded string has a NUL behind every index. -/
theorem zero_mem_drop_padded {src : List UInt8} {n k size : Nat} (hn : n ≤ size)
    (hlen : (cstr (src.take n)).length < size) (hk : k < size) :
    0 ∈ (strncpy src n ++ List.replicate (size - n) 0).drop k := by
  have hpad : strncpy src n ++ List.replicate (size - n) 0 =
      cstr (src.take n) ++ List.replicate (size - (cstr (src.take n)).length) 0 := by
    have hle : (cstr (src.take n)).length ≤ n :=
      le_trans (length_cstr_le _) (List.length_take_le _ _)
    rw [strncpy, List.append_assoc, List.replicate_append_replicate]
    congr 2
    omega
  rw [hpad, List.drop_append, List.drop_replicate, List.mem_append, List.mem_replicate]
  exact .inr ⟨by omega, rfl⟩

/-- The reply that a chat message is built over ends in its fields. -/
theorem endsBehind_serverToClient {cfg : Config} {m : CombinedMessage} {now : UInt64}
    {msgLength : Nat} {u : User} {text : List UInt8} (hu : u.Short) (hfit : msgLength ≤ netTextLen)
    (hclear : m.body.bytes.drop 512 = List.replicate 40 0)
    (htext : (cstr (m.text.take msgLength)).length < netTextLen) (hreply : text.length < 512) :
    EndsBehind (buildServerToClient m now msgLength u.name.bytes u.nameLength).msg.body.bytes
      cfg.serverName.bytes text := by
  have hlt := cfg.serverName.lt
  have hplus : u.nameLength ≤ netNameLenPlus := le_trans hu.size (by decide)
  have hdrop : ∀ (b : Buf bodySize) (off len k : Nat), k ≤ len →
      (b.bytes.drop (off + k)).take (len - k) = (b.slice off len).drop k := by
    intro b off len k hk
    rw [Buf.slice, List.drop_take, List.drop_drop]
  constructor
  · rw [hdrop _ 8 32 _ (le_of_lt hlt)]
    show 0 ∈ List.drop _ (CombinedMessage.originalSender _)
    rw [originalSender_serverToClient hplus]
    exact zero_mem_drop_padded hplus (lt_trans (hu.length_cstr_take _) (by decide)) hlt
  · rw [hdrop _ 40 512 _ (le_of_lt hreply)]
    show 0 ∈ List.drop _ (Buf.slice _ 40 netTextLen)
    rw [slice_text_serverToClient hplus hfit hclear]
    exact zero_mem_drop_padded hfit htext hreply

end LinuxChat
