import LinuxChat.Logic.Accesses
import LinuxChat.Logic.FrameStep

/-!
# Copies and their arrays

Which frames make the handling of one pass leave an array, exactly: the
checks of `network_Receive` test the bytes that came while the copies use the
bytes announced, a name field has no room for the terminator of a 31-byte
name, and what is built over a request is printed up to a NUL that the
request has to bring. Where no pass leaves an array, every stored name is
short, so that the condition is one on the frame alone, but for the names the
server runs under, the sender's rights and the tests of the commands.
-/

namespace LinuxChat

open CMem Trace

variable {cfg : Config} {env : Env} {p : UserPtr} {u : User} {sv sv' : Server} {f : Frame}
  {r : Handled}

/-- The body of the message after the read: what came, and zeros. -/
def Frame.padded (f : Frame) : List UInt8 := f.data ++ List.replicate (bodySize - f.data.length) 0

/-- A reply built over the request ends in its two fields: the request has a NUL behind the
sender and one behind the text, of which 511 bytes are kept. -/
def Frame.ReplyEnds (f : Frame) (sender text : List UInt8) : Prop :=
  EndsBehind f.padded sender (cstr (text.take (netTextLen - 1)))

/-- The argument of `/kick` leaves room for its NUL, and if there is none, `name_to_kick`
happens to hold a NUL. -/
def Frame.KickEnds (f : Frame) (env : Env) : Prop :=
  (∀ arg, scanKick (cstr f.data) = some arg → arg.length < netNameLen) ∧
    (scanKick (cstr f.data) = none → (cstr (env.nameToKick.take netNameLen)).length < netNameLen)

/-- The name a `/kick` looks for. -/
def Frame.kickName (f : Frame) (env : Env) : List UInt8 :=
  cstr ((scanKick (cstr f.data)).getD env.nameToKick)

/-- What a command of the administrator needs besides a terminated text. -/
def Frame.CommandInBounds (f : Frame) (cfg : Config) (sv : Server) (env : Env) :
    AdminCommandCode → Prop
  | .kick => f.KickEnds env ∧ (kickTarget sv.users (f.kickName env) = none →
      f.ReplyEnds cfg.serverName.bytes
        (lit "[name: " ++ f.kickName env ++ lit "] is not in user list"))
  | .pause => f.ReplyEnds cfg.serverName.bytes
      (if sv.broadcastPaused then lit "Server is already paused"
      else lit "admin has paused the server")
  | .resume => f.ReplyEnds cfg.serverName.bytes
      (if sv.broadcastPaused then lit "admin has resumed the server"
      else lit "Server is not paused, [/resume] makes no sense")
  | .help => f.ReplyEnds (lit "/kick") (lit "Kick a user from the chat")
  | .shutdown | .noValidCommand => f.ReplyEnds cfg.serverName.bytes
      (lit "Caution! detected invalid [server_commands] " ++ cstr f.data)

/-- Handling `f` at the entry `u` stays inside every array. -/
structure InBounds (cfg : Config) (sv : Server) (u : User) (f : Frame) (env : Env) : Prop where
  body : readsBody f.header = true → f.data.length ≤ bodySize
  login : f.IsLogin → f.announced ≤ 36 ∧ (cstr f.name).length < netNameLen ∧
    cfg.serverName.bytes.length < netNameLen
  message : f.IsText → ¬ f.IsCommand →
    f.announced ≤ netTextLen ∧ (cstr f.data).length < netTextLen
  refused : f.IsCommand → u.cname ≠ cfg.adminName.bytes → f.ReplyEnds cfg.serverName.bytes
    (lit "Caution! You dont have required permissions for [server_commands]")
  command : f.IsCommand → u.cname = cfg.adminName.bytes →
    (cstr f.data).length < netTextLen ∧
      f.CommandInBounds cfg sv env (getServerCommand (cstr f.data))

/-- The names in the list are short. -/
def NamesShort (l : UserList) : Prop := ∀ q u, l.get? q = some u → u.Short

/-! ## What a frame brings -/

/-- The read stays inside the body. -/
theorem count_le_iff :
    f.count.toNat ≤ bodySize ↔ (readsBody f.header = true → f.data.length ≤ bodySize) := by
  by_cases hbody : readsBody f.header = true
  · have hcount : f.count = returned f.result := if_pos hbody
    rw [hcount]
    rcases f.returned_result with hneg | hlen
    · have hempty : f.data.length = 0 := by rw [Frame.data_of_failed hneg, List.length_nil]
      simp [hneg, hempty]
    · rw [hlen, Int.toNat_natCast]
      exact ⟨fun h _ => h, fun h => h hbody⟩
  · simp [Frame.count, hbody]

theorem padded_eq (htext : f.IsText) (hfit : f.data.length ≤ bodySize) :
    f.msg.body.bytes = f.padded := Frame.bytes_msg htext.readsBody hfit

/-- The message is the bytes that came, as a C string. -/
theorem cstr_body (htext : f.IsText) (hfit : f.data.length ≤ bodySize) :
    cstr f.msg.body.bytes = cstr f.data := by
  rw [padded_eq htext hfit, Frame.padded, cstr_append_replicate_zero]

theorem cstr_text (htext : f.IsText) (hfit : f.data.length ≤ bodySize) :
    cstr f.msg.text = (cstr f.data).take netTextLen := by
  rw [CombinedMessage.text, Buf.slice, List.drop_zero, cstr_take, cstr_body htext hfit]

/-- The text ends in its field exactly if fewer than 512 bytes come before its NUL. -/
theorem length_cstr_text (htext : f.IsText) (hfit : f.data.length ≤ bodySize) :
    (cstr f.msg.text).length < netTextLen ↔ (cstr f.data).length < netTextLen := by
  rw [cstr_text htext hfit, List.length_take]
  omega

/-! ## Logins -/

/-- The copy into `login_name` fits and is terminated. -/
theorem inside_loginName (hcode : f.code = .receivedLogin) (hnames : NamesShort sv.users) :
    Inside (loginNameAccesses env sv.users f.msg f.announced) ↔
      f.announced ≤ 36 ∧ (cstr f.name).length < netNameLen := by
  have hpos := (Frame.announced_receivedLogin hcode).1
  have hfit : f.announced - 5 ≤ netNameLen ↔ f.announced ≤ 36 := by
    unfold netNameLen
    omega
  have hterm : ∀ hle : f.announced ≤ 36,
      ((cstr (loginName f.msg f.announced).bytes).length < netNameLen ↔
        (cstr f.name).length < netNameLen) := by
    intro hle
    rw [← Frame.loginName_terminated hcode hle, ← length_cstr_lt_iff, Buf.length_bytes]
  simp only [loginNameAccesses, inside_cons, inside_mk, inside_source, inside_string,
    inside_compareNames hnames, CArray.size, Frame.loginCopySize_eq hcode, hfit, and_true]
  constructor
  · rintro ⟨hle, -, hlt⟩
    exact ⟨hle, (hterm hle).mp hlt⟩
  · rintro ⟨hle, hlt⟩
    exact ⟨hle, le_trans (Nat.min_le_left _ _) (hfit.mpr hle), (hterm hle).mpr hlt⟩

/-- A login that fits leaves a short name. -/
theorem short_loggedInAs (hcode : f.code = .receivedLogin) (hu : u.Short)
    (hle : f.announced ≤ 36) (hname : (cstr f.name).length < netNameLen) :
    (loggedInAs u f env).Short := by
  refine hu.login ?_ ?_
  · rw [Frame.loginSize_eq hcode]
    unfold netNameLen
    omega
  · rwa [Frame.cstr_take_loginMem hcode hle]

/-- The names stay short under a login that fits. -/
theorem namesShort_login (hcode : f.code = .receivedLogin) (hnames : NamesShort sv.users)
    (hle : f.announced ≤ 36) (hname : (cstr f.name).length < netNameLen) :
    NamesShort (sv.users.loginUser p (loginMem env f.msg f.announced) (loginSize f.announced)) := by
  intro q v hv
  obtain ⟨w, hw, rfl⟩ := Table.exists_of_get?_modify hv
  split
  · exact short_loggedInAs hcode (hnames q w hw) hle hname
  · exact hnames q w hw

/-- A login stays inside its arrays. -/
theorem inside_login (hcode : f.code = .receivedLogin) (hu : u.Short)
    (hnames : NamesShort sv.users) :
    Inside (handleFrame cfg env p u sv .receivedLogin f.msg).accesses ↔
      f.announced ≤ 36 ∧ (cstr f.name).length < netNameLen ∧
        cfg.serverName.bytes.length < netNameLen := by
  rw [handleFrame_login, ← and_assoc, ← @inside_loginName env sv f hcode hnames]
  split
  · simp only [loginAccepted, inside_append, inside_loginAnswer]
    refine ⟨fun h => h.1.1.1, fun h => ⟨⟨⟨h, ?_⟩, ?_⟩, ?_⟩⟩
    all_goals obtain ⟨hle, hname⟩ := (inside_loginName hcode hnames).mp h.1
    all_goals have hshort := @short_loggedInAs env u f hcode hu hle hname
    · have hcopied : loginSize f.announced ≤ netNameLen := by
        rw [Frame.loginSize_eq hcode]
        unfold netNameLen
        omega
      have hstored : (cstr (loggedInAs u f env).name.bytes).length < netNameLenPlus :=
        lt_trans hshort.length_cname (by decide)
      simp only [loginUserAccesses, inside_cons, inside_source, inside_mk, inside_string,
        inside_nil, and_true, CArray.size]
      exact ⟨le_trans (Nat.min_le_left _ _) hcopied, le_trans hcopied (by decide), hstored⟩
    · exact inside_userAdded hshort _ _
    · exact inside_snapshot (namesShort_login hcode hnames hle hname)
  · simp only [inside_append, inside_loginAnswer]

/-! ## Messages -/

/-- A text that is not a command stays inside its arrays. -/
theorem inside_message (htext : f.IsText) (hfit : f.data.length ≤ bodySize) (hu : u.Short) :
    Inside (handleFrame cfg env p u sv .receivedMessage f.msg).accesses ↔
      f.announced ≤ netTextLen ∧ (cstr f.data).length < netTextLen := by
  have hclear : f.announced ≤ netTextLen → f.msg.body.bytes.drop 512 = List.replicate 40 0 := by
    intro hle
    have hdata : f.data.length ≤ 512 := le_trans f.length_data_le hle
    rw [padded_eq htext hfit, Frame.padded, List.drop_append, List.drop_eq_nil_of_le hdata,
      List.nil_append, List.drop_replicate]
    congr 1
    unfold bodySize
    omega
  have hall : cstr (f.msg.text.take f.announced) = cstr f.msg.text := by
    rw [cstr_take]
    refine List.take_of_length_le ?_
    rw [cstr_text htext hfit]
    exact le_trans (List.length_take_le' _ _) (le_trans (length_cstr_le _) f.length_data_le)
  have hbuild := @inside_serverToClient f.msg env.now f.announced u hu hclear hall
  rw [length_cstr_text htext hfit] at hbuild
  simp only [handleFrame, handleMessage, inside_append]
  refine ⟨fun h => hbuild.mp h.1, fun h => ⟨hbuild.mpr h, ?_⟩⟩
  split
  · exact inside_nil
  · -- The refusal is built over the chat message, whose fields end in zeros.
    have hends := @endsBehind_serverToClient cfg f.msg env.now f.announced u
      (cstr ((lit "Message Queue is sadly full, wait for admin to resume chat").take
        (netTextLen - 1))) hu h.1 (hclear h.1)
      (by rw [hall]; exact (length_cstr_text htext hfit).mpr h.2)
      (lt_of_le_of_lt (length_formatted_le _) (by decide))
    rw [inside_append]
    exact ⟨inside_serverResponse.1.mpr hends, inside_serverResponse.2.mpr hends⟩

/-! ## Commands -/

/-- A reply to the sender alone. -/
theorem inside_replyOnly (htext : f.IsText) (hfit : f.data.length ≤ bodySize)
    {text : List UInt8} :
    Inside (replyOnly cfg env u sv f.msg text).accesses ↔
      f.ReplyEnds cfg.serverName.bytes text := by
  simp only [replyOnly, inside_append, inside_serverResponse, and_self, Frame.ReplyEnds,
    padded_eq htext hfit]

/-- A text from the server to everyone. -/
theorem inside_announce (htext : f.IsText) (hfit : f.data.length ≤ bodySize)
    {text : List UInt8} :
    Inside (announceAccesses cfg env sv.users f.msg text) ↔
      f.ReplyEnds cfg.serverName.bytes text := by
  simp only [announceAccesses, inside_append, inside_flatMap, inside_serverResponse,
    Frame.ReplyEnds, padded_eq htext hfit]
  exact ⟨fun h => h.1, fun h => ⟨h, fun _ _ => h⟩⟩

theorem inside_kickAccesses (htext : f.IsText) (hfit : f.data.length ≤ bodySize)
    (hnames : NamesShort sv.users) (hlt : (cstr f.data).length < netTextLen) :
    Inside (kickAccesses env sv.users f.msg) ↔ f.KickEnds env := by
  have hread := (length_cstr_text htext hfit).mpr hlt
  simp only [kickAccesses, inside_append, inside_cons, inside_string, hread, CArray.size,
    true_and, inside_compareNames hnames, and_true, cstr_body htext hfit, Frame.KickEnds]
  cases hscan : scanKick (cstr f.data) with
  | none => simp
  | some arg =>
      have hcstr : arg.length < netNameLen → (cstr (arg.take netNameLen)).length < netNameLen :=
        fun h => lt_of_le_of_lt (le_trans (length_cstr_le _) (List.length_take_le' _ _)) h
      simp only [Option.map_some, Option.toList_some, inside_cons, inside_mk, inside_nil,
        and_true, CArray.size, Option.getD_some, Option.some.injEq, forall_eq', reduceCtorEq,
        false_implies]
      exact ⟨fun h => h.1, fun h => ⟨h, hcstr h⟩⟩

theorem inside_kick (htext : f.IsText) (hfit : f.data.length ≤ bodySize)
    (hnames : NamesShort sv.users) (hlt : (cstr f.data).length < netTextLen) :
    Inside (handleKick cfg env u sv f.msg).accesses ↔ f.CommandInBounds cfg sv env .kick := by
  have hname : kickName env f.msg = f.kickName env := by
    rw [kickName, Frame.kickName, cstr_body htext hfit]
  have hkick := @inside_kickAccesses env sv f htext hfit hnames hlt
  have hreply := @inside_replyOnly cfg env u sv f htext hfit
    (lit "[name: " ++ f.kickName env ++ lit "] is not in user list")
  unfold handleKick
  rw [hname]
  cases htarget : kickTarget sv.users (f.kickName env) with
  | some e => simp [hkick, Frame.CommandInBounds, htarget]
  | none => simp only [inside_append, hkick, hreply, Frame.CommandInBounds, htarget, true_implies]

theorem inside_pause (htext : f.IsText) (hfit : f.data.length ≤ bodySize) :
    Inside (handlePause cfg env u sv f.msg).accesses ↔ f.CommandInBounds cfg sv env .pause := by
  unfold handlePause Frame.CommandInBounds
  split
  · exact inside_replyOnly htext hfit
  · exact inside_announce htext hfit

theorem inside_resume (htext : f.IsText) (hfit : f.data.length ≤ bodySize) :
    Inside (handleResume cfg env u sv f.msg).accesses ↔ f.CommandInBounds cfg sv env .resume := by
  unfold handleResume Frame.CommandInBounds
  split
  · exact inside_announce htext hfit
  · exact inside_replyOnly htext hfit

/-- Over a cleared message a reply always ends in its fields. -/
theorem endsBehind_zero {sender text : List UInt8} (hs : sender.length < 32)
    (ht : text.length < 512) :
    EndsBehind CombinedMessage.zero.body.bytes sender text := by
  have hz : ∀ k n, n ≠ 0 → k < 552 →
      (0 : UInt8) ∈ ((CombinedMessage.zero.body.bytes).drop k).take n := by
    intro k n hn hk
    rw [CombinedMessage.zero, Buf.bytes_zero, List.drop_replicate, List.take_replicate,
      List.mem_replicate]
    exact ⟨by unfold bodySize; omega, rfl⟩
  exact ⟨hz _ _ (by omega) (by omega), hz _ _ (by omega) (by omega)⟩

theorem inside_help (htext : f.IsText) (hfit : f.data.length ≤ bodySize) :
    Inside (handleHelp env u sv f.msg).accesses ↔ f.CommandInBounds cfg sv env .help := by
  have hrow : ∀ name text : List UInt8, 0 ∉ name → name.length < 32 →
      Inside (buildServerResponseSpecialAccesses .zero env.now name text ++
        networkSendAccesses (buildServerResponseSpecial .zero env.now name text).msg) := by
    intro name text hname hlen
    refine (inside_serverResponseSpecial hname (le_of_lt hlen)).mpr (endsBehind_zero hlen ?_)
    exact lt_of_le_of_lt (length_formatted_le text) (by decide)
  have hfirst := @inside_serverResponseSpecial f.msg env.now (lit "/kick")
    (lit "Kick a user from the chat") (by decide) (by decide)
  rw [padded_eq htext hfit] at hfirst
  have hrows : (handleHelp env u sv f.msg).accesses =
      (buildServerResponseSpecialAccesses f.msg env.now (lit "/kick")
          (lit "Kick a user from the chat") ++
        networkSendAccesses (buildServerResponseSpecial f.msg env.now (lit "/kick")
          (lit "Kick a user from the chat")).msg) ++
      allAdminCommandsData.tail.flatMap fun row =>
        buildServerResponseSpecialAccesses .zero env.now row.syntaxWord row.description ++
          networkSendAccesses
            (buildServerResponseSpecial .zero env.now row.syntaxWord row.description).msg := rfl
  have hnames : ∀ row ∈ allAdminCommandsData.tail, 0 ∉ row.syntaxWord ∧
      row.syntaxWord.length < 32 := by decide
  rw [hrows, inside_append, hfirst, inside_flatMap]
  exact ⟨fun h => h.1, fun h => ⟨h, fun row hr => hrow _ _ (hnames row hr).1 (hnames row hr).2⟩⟩

/-- The first word of a command has room for its NUL. -/
theorem length_scanWord {width : Nat} {s word : List UInt8} (h : scanWord width s = some word) :
    word.length ≤ width := by
  simp only [scanWord] at h
  split at h
  · cases h
  · cases h
    exact List.length_take_le _ _

/-- The reads before the switch over the commands. -/
theorem inside_commandTest (htext : f.IsText) (hfit : f.data.length ≤ bodySize) (hu : u.Short) :
    Inside (commandTestAccesses cfg u f.msg) ↔
      (u.cname = cfg.adminName.bytes → (cstr f.data).length < netTextLen) := by
  have hname : (cstr u.name.bytes).length < netNameLenPlus :=
    lt_trans hu.length_cname (by decide)
  have hadmin : (cstr cfg.adminName.bytes).length < 32 := by
    rw [cstr_eq_self cfg.adminName.nulFree]
    exact cfg.adminName.lt
  have hword : Inside ((scanWord 31 (cstr f.msg.body.bytes)).map fun w =>
      (⟨.firstWord, w.length + 1⟩ : Access)).toList := by
    cases hscan : scanWord 31 (cstr f.msg.body.bytes) with
    | none => exact inside_nil
    | some w =>
        have hlen : w.length + 1 ≤ 32 := Nat.succ_le_succ (length_scanWord hscan)
        exact inside_cons.mpr ⟨inside_mk.mpr hlen, inside_nil⟩
  simp only [commandTestAccesses, inside_cons, inside_string, CArray.size, hname, hadmin,
    true_and]
  split
  · rename_i hrights
    simp [getServerCommandAccesses, hword, CArray.size, length_cstr_text htext hfit, hrights]
  · rename_i hrights
    simp [hrights]

/-- A command stays inside the arrays. -/
theorem inside_command (htext : f.IsText) (hfit : f.data.length ≤ bodySize) (hu : u.Short)
    (hnames : NamesShort sv.users) :
    Inside (commandTestAccesses cfg u f.msg) ∧
        Inside (handleFrame cfg env p u sv .receivedServerCommand f.msg).accesses ↔
      (u.cname ≠ cfg.adminName.bytes → f.ReplyEnds cfg.serverName.bytes
        (lit "Caution! You dont have required permissions for [server_commands]")) ∧
      (u.cname = cfg.adminName.bytes → (cstr f.data).length < netTextLen ∧
        f.CommandInBounds cfg sv env (getServerCommand (cstr f.data))) := by
  rw [inside_commandTest htext hfit hu]
  show _ ∧ Inside (handleCommand cfg env u sv f.msg).accesses ↔ _
  unfold handleCommand
  rw [cstr_body htext hfit]
  by_cases hrights : u.cname = cfg.adminName.bytes
  · simp only [hrights, if_true, true_implies, ne_eq, not_true_eq_false, false_implies, true_and]
    refine and_congr_right fun hlt => ?_
    cases getServerCommand (cstr f.data) with
    | kick => exact inside_kick htext hfit hnames hlt
    | pause => exact inside_pause htext hfit
    | resume => exact inside_resume htext hfit
    | help => exact inside_help htext hfit
    | shutdown => exact inside_replyOnly htext hfit
    | noValidCommand => exact inside_replyOnly htext hfit
  · simp only [hrights, if_false, false_implies, ne_eq, not_false_eq_true, true_implies, true_and,
      and_true]
    exact inside_replyOnly htext hfit

/-! ## Passes -/

/-- Where all names are short, a pass stays inside every array exactly for the frames of
`InBounds`. -/
theorem inside_pass (hu : u.Short) (hnames : NamesShort sv.users) :
    Inside (clientPass cfg env p u sv f.received).accesses ↔ InBounds cfg sv u f env := by
  have hsplit : Inside (clientPass cfg env p u sv f.received).accesses ↔
      (readsBody f.header = true → f.data.length ≤ bodySize) ∧
        Inside (if f.code = .receivedServerCommand then commandTestAccesses cfg u f.msg else []) ∧
        Inside (handleFrame cfg env p u sv f.code f.msg).accesses := by
    rw [f.received_eq, ← count_le_iff]
    simp only [clientPass, List.cons_append, inside_cons, inside_append, inside_mk, CArray.size]
  rw [hsplit]
  have hlogin := Frame.code_eq_receivedLogin (f := f)
  have hmessage := Frame.code_eq_receivedMessage (f := f)
  have hcommand := Frame.code_eq_receivedServerCommand (f := f)
  cases hcode : f.code with
  | receivedLogin =>
      simp only [hcode, reduceCtorEq, false_iff, true_iff] at hlogin hmessage hcommand
      rw [if_neg (fun h => by cases h), inside_login hcode hu hnames]
      constructor
      · rintro ⟨hread, -, hl⟩
        exact ⟨hread, fun _ => hl, fun ht hc => absurd ⟨ht, hc⟩ hmessage,
          fun hc => absurd hc hcommand, fun hc => absurd hc hcommand⟩
      · intro h
        exact ⟨h.body, inside_nil, h.login hlogin⟩
  | receivedMessage =>
      simp only [hcode, reduceCtorEq, false_iff, true_iff] at hlogin hmessage hcommand
      rw [if_neg (fun h => by cases h)]
      constructor
      · rintro ⟨hread, -, hm⟩
        have hfit := hread hmessage.1.readsBody
        exact ⟨hread, fun hl => absurd hl hlogin,
          fun _ _ => (inside_message hmessage.1 hfit hu).mp hm,
          fun hc => absurd hc hcommand, fun hc => absurd hc hcommand⟩
      · intro h
        have hfit := h.body hmessage.1.readsBody
        exact ⟨h.body, inside_nil,
          (inside_message hmessage.1 hfit hu).mpr (h.message hmessage.1 hmessage.2)⟩
  | receivedServerCommand =>
      simp only [hcode, reduceCtorEq, false_iff, true_iff] at hlogin hmessage hcommand
      rw [if_pos rfl]
      constructor
      · rintro ⟨hread, hc⟩
        have hfit := hread hcommand.1.readsBody
        obtain ⟨hrefused, hadmin⟩ := (inside_command hcommand.1 hfit hu hnames).mp hc
        exact ⟨hread, fun hl => absurd hl hlogin, fun _ hno => absurd hcommand hno,
          fun _ => hrefused, fun _ => hadmin⟩
      · intro h
        have hfit := h.body hcommand.1.readsBody
        exact ⟨h.body, (inside_command hcommand.1 hfit hu hnames).mpr
          ⟨h.refused hcommand, h.command hcommand⟩⟩
  | _ =>
      -- Nothing but the read of the body: the switch copies nothing.
      simp only [hcode, reduceCtorEq, false_iff, not_and, not_not] at hlogin hmessage hcommand
      rw [if_neg (fun h => by cases h)]
      constructor
      · rintro ⟨hread, -⟩
        exact ⟨hread, fun hl => absurd hl hlogin, fun ht hno => absurd (hmessage ht) hno,
          fun hc => absurd hc hcommand, fun hc => absurd hc hcommand⟩
      · intro h
        exact ⟨h.body, inside_nil, inside_nil⟩

/-- What follows the loop stays inside the arrays where all names are short. -/
theorem inside_teardown (hu : u.Short) {status : Int} :
    Inside (clientTeardown env p u sv status .communicationError .zero).accesses := by
  have hbuild := inside_userRemoved hu env.now (teardownReason status u .communicationError)
  simp only [clientTeardown]
  split
  · rw [inside_append, inside_flatMap]
    exact ⟨hbuild.1, fun _ _ => hbuild.2⟩
  · exact inside_nil

/-! ## Runs -/

/-- The frame of an event is one of `InBounds`. -/
def FrameEvent.InBounds (cfg : Config) (sv : Server) : FrameEvent → Prop
  | .frame p f env => ∀ u, sv.users.get? p = some u → LinuxChat.InBounds cfg sv u f env
  | .connect .. | .disconnect .. | .deliver => True

/-- Every frame is one of `InBounds`. -/
def inBounds (cfg : Config) : Guard Server FrameEvent Handled := fun _ sv ev => ev.InBounds cfg sv

/-- No access of a step leaves its array. -/
def staysInside (cfg : Config) : Guard Server FrameEvent Handled :=
  fun _ sv ev => ∀ sv' r, frameStep cfg sv ev = some (sv', r) → r.oob = []

/-- Where all names are short, a step stays inside exactly if its frame is one of `InBounds`. -/
theorem oob_step_iff (hnames : NamesShort sv.users) {ev : FrameEvent}
    (hstep : frameStep cfg sv ev = some (sv', r)) : r.oob = [] ↔ ev.InBounds cfg sv := by
  rw [oob_eq_nil]
  cases ev with
  | frame p f env =>
      obtain ⟨u, hu, rfl, -⟩ := frameStep_frame hstep
      rw [inside_pass (hnames p u hu) hnames]
      constructor
      · intro h v hv
        obtain rfl : u = v := Option.some.inj (hu.symm.trans hv)
        exact h
      · intro h
        exact h u hu
  | disconnect p status env =>
      obtain ⟨u, hu, -, rfl, -⟩ := frameStep_disconnect hstep
      exact iff_of_true (inside_teardown (hnames p u hu)) trivial
  | connect p thread sock =>
      refine iff_of_true ?_ trivial
      simp only [frameStep] at hstep
      split at hstep
      · cases hstep
      · split at hstep <;> cases hstep
        exact inside_nil
  | deliver =>
      refine iff_of_true ?_ trivial
      simp only [frameStep] at hstep
      split at hstep
      · cases hstep
      · split at hstep <;> cases hstep
        exact inside_nil

/-- And leaves all names short. -/
theorem namesShort_step (hnames : NamesShort sv.users) {ev : FrameEvent}
    (hin : ev.InBounds cfg sv) (hstep : frameStep cfg sv ev = some (sv', r)) :
    NamesShort sv'.users := by
  intro q v hv
  cases frameStep_entry hstep hv with
  | created thread sock _ hnew =>
      rw [hnew]
      exact User.short_fresh thread sock
  | login u f env hu hev hacc hnew =>
      subst hev
      obtain ⟨hle, hname, -⟩ := (hin u hu).login (Frame.code_eq_receivedLogin.mp hacc.1)
      rw [hnew]
      exact short_loggedInAs hacc.1 (hnames q u hu) hle hname
  | logout u status env hu _ hnew =>
      rw [hnew]
      exact ⟨(hnames q u hu).size, (hnames q u hu).clear⟩
  | kept u hu hsame _ _ _ =>
      rcases hsame with rfl | rfl
      · exact hnames q v hu
      · exact ⟨(hnames q u hu).size, (hnames q u hu).clear⟩

/-- **Copies stay inside their buffers exactly for the frames of `InBounds`.** The runs in which
no access of any step leaves its array are the runs all of whose frames are such. -/
theorem stays_inside_iff (cfg : Config) (h : History FrameEvent Handled) (sv : Server) :
    Run (frameMachine cfg) (staysInside cfg) h sv ↔ Run (frameMachine cfg) (inBounds cfg) h sv := by
  symm
  refine Run.iff_of_guards (I := fun _ sv => NamesShort sv.users) ?_ ?_ ?_
  · intro q u hu
    cases hu
  · intro h sv ev sv' r hnames hin hstep
    exact namesShort_step hnames hin hstep
  · intro h sv ev sv' r hnames hstep
    have hiff := oob_step_iff hnames hstep
    constructor
    · intro hin sv'' r' hstep'
      exact (oob_step_iff hnames hstep').mpr hin
    · intro hin
      exact hiff.mp (hin sv' r hstep)

/-! ## Frames -/

/-- Each of the frames leaves the array named beside it. -/
def leavers : List (Frame × CArray) :=
  [(.login 36 (List.replicate 31 97), .loginName), (.login 100 (lit "bob"), .userName),
    (.text 600 (lit "hey"), .serverText), (.text 600 (List.replicate 600 97), .body),
    (.text 512 (List.replicate 512 97), .serverText),
    (.text 37 (lit "/kick " ++ List.replicate 31 97), .nameToKick),
    (.text 48 (lit "/pause " ++ List.replicate 41 97), .originalSender)]

/-- A login under 31 characters leaves `login_name` without a NUL; lengths announced beyond a
text or a name overrun the arrays the text and the name are copied to; a text of 600 bytes
overruns the message, and one of 512 is printed past the end of its field; an argument of 31
bytes leaves no room for its NUL; and a reply over a request of 48 bytes is printed past the end
of the sender's field. -/
theorem oob_of_frames :
    ∃ h sv, Run (frameMachine .default) anyStep h sv ∧
      leavers.all (fun e => (frameStep .default sv (.frame 1 e.1 ⟨1, 0, [], []⟩)).any fun r =>
        r.2.oob.any fun a => a.array = e.2) = true := by
  obtain ⟨h, sv, hrun, hoob⟩ := Run.exists_of_replay
    (M := frameMachine .default) (G := anyStep)
    [.connect 1 1 5, .frame 1 (.login 10 (lit "Admin")) ⟨1, 0, [], []⟩]
    (fun _ sv => leavers.all fun e =>
      (frameStep .default sv (.frame 1 e.1 ⟨1, 0, [], []⟩)).any fun r =>
        r.2.oob.any fun a => a.array = e.2) (by decide +kernel)
  exact ⟨h, sv, hrun, hoob⟩

end LinuxChat
