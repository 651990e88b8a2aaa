import LinuxChat.Model.Accesses
import LinuxChat.Model.Broadcast
import LinuxChat.Model.Receive

/-!
# The session thread

`client_Thread` as three pieces: what one pass of its loop does with a frame,
what it does after the loop, and the pieces of a login, which other threads
can come between. `self` is a parameter here; that it is one variable for all
threads is the subject of `Sessions`.

A pass records its accesses to arrays; one that leaves its array (`oob`) keeps
the part inside. What the program does not control is in `Env`: the clock, the stack behind
`login_name`, and what `name_to_kick` holds before it is written.
-/

namespace LinuxChat

open CMem ByteStream

/-- `queue_message`. -/
structure QueueMessage where
  sender : Option UserPtr
  msg : CombinedMessage
  deriving DecidableEq

/-- The state the session threads share. -/
structure Server where
  users : UserList
  queue : List QueueMessage
  broadcastPaused : Bool
  deriving DecidableEq

/-- The state `broadcast_agent_init` leaves. -/
def Server.init : Server := ⟨Table.empty, [], false⟩

/-- `broadcast_message`: refused when the queue is full. -/
def broadcastMessage (queue : List QueueMessage) (msg : CombinedMessage)
    (userToIgnore : Option UserPtr) : Bool × List QueueMessage :=
  if queue.length < mqMaxmsg then (true, queue ++ [⟨userToIgnore, msg⟩]) else (false, queue)

/-- What a thread does to the world outside the shared state. -/
inductive Output
  /-- `recv` in `Check_for_Message`. -/
  | recv (fd : Nat)
  /-- `read` in `network_Receive`. -/
  | read (fd : Nat)
  /-- `network_Send(self->sock, msg)`. -/
  | reply (fd : Nat) (o : Outgoing)
  /-- `network_Send(target->sock, msg)` in a loop over the users. -/
  | notify (fd : Nat) (o : Outgoing)
  /-- `broadcast_message(*msg, NULL)` and its result. -/
  | enqueue (o : Outgoing) (sent : Bool)
  /-- `register_thread_log_under_Name`. -/
  | registerLog (thread : Nat) (name : List UInt8)
  /-- `close(target->sock); user_should_shutdown(target)`. -/
  | kick (target : UserPtr) (fd : Nat)
  /-- `pause_broadcast`. -/
  | pause
  /-- `resume_broadcast`. -/
  | resume
  /-- `close(self->sock)`. -/
  | close (fd : Nat)
  deriving DecidableEq

/-- The message a thread hands to `network_Send` or `broadcast_message`. -/
def Output.outgoing? : Output → Option Outgoing
  | .reply _ o => some o
  | .notify _ o => some o
  | .enqueue o _ => some o
  | _ => none

/-- What a pass takes from outside the shared state: its own `pthread_self()`, the clock and
memory it did not write. -/
structure Env where
  thread : Nat
  now : UInt64
  stack : List UInt8
  nameToKick : List UInt8
  deriving DecidableEq

/-- What a pass leaves behind. -/
structure Handled where
  server : Server
  msg : CombinedMessage
  out : List Output
  accesses : List Access
  deriving DecidableEq

/-- The accesses that leave their array. -/
def Handled.oob (r : Handled) : List Access := r.accesses.filter fun a => !a.inside

/-! ## Login -/

/-- `f_Name_has_forbidden_char` on one byte. -/
def forbiddenChar (c : UInt8) : Bool :=
  signedChar c < 33 || signedChar c == 34 || signedChar c == 39 || signedChar c == 96 ||
    127 ≤ signedChar c

/-- `f_Name_has_forbidden_char`: its loop runs over `strlen` bytes, as a `u16`. -/
def nameHasForbiddenChar (name : List UInt8) : Bool :=
  ((cstr name).take (toU16 (cstr name).length)).any forbiddenChar

/-- The loop of `f_Name_has_forbidden_char` from `x` on, as it runs. -/
def nameHasForbiddenCharFrom (name : List UInt8) (locNameLen x : UInt16) : Bool :=
  if x < locNameLen then
    if forbiddenChar (name.getD x.toNat 0) then true
    else nameHasForbiddenCharFrom name locNameLen (x + 1)
  else false
termination_by locNameLen.toNat - x.toNat
decreasing_by
  rename_i hx _
  have hlt := UInt16.lt_iff_toNat_lt.mp hx
  have hlen := locNameLen.toNat_lt
  simp only [UInt16.toNat_add, UInt16.reduceToNat, Nat.reducePow] at *
  omega

/-- `f_Name_has_forbidden_char`, with the counter of its loop a `u16`. -/
def fNameHasForbiddenChar (name : List UInt8) : Bool :=
  nameHasForbiddenCharFrom name (UInt16.ofNat (cstr name).length) 0

/-- `*msg_length - 5`, the size of the copies into `login_name`. -/
def loginCopySize (msgLength : Nat) : Nat := sizeT ((msgLength : Int) - 5)

/-- `*msg_length - 5` as `login_User` gets it. -/
def loginSize (msgLength : Nat) : Nat := toU16 ((msgLength : Int) - 5)

/-- `login_name` after the copy. -/
def loginName (m : CombinedMessage) (msgLength : Nat) : Buf netNameLen :=
  (Buf.zero netNameLen).write 0 (strncpy m.authName (loginCopySize msgLength))

/-- The memory at `login_name`. -/
def loginMem (env : Env) (m : CombinedMessage) (msgLength : Nat) : List UInt8 :=
  (loginName m msgLength).bytes ++ env.stack

/-- The two checks of a login name; the second overwrites the first. -/
def loginResponse (l : UserList) (name : List UInt8) : LoginResponseCode :=
  let code := if l.isNameFree name then LoginResponseCode.success else .nameTaken
  -- A forbidden character hides a taken name.
  if nameHasForbiddenChar name then .nameInvalid else code

/-- The notice that a user has logged in, for the broadcast queue. -/
def loginNotice (now : UInt64) (u : User) : Outgoing :=
  buildUserAdded .zero now u.name.bytes u.nameLength true

/-- What a newcomer is told about the users already there. -/
def snapshot (now : UInt64) (l : UserList) (self : UserPtr) : List Outgoing :=
  (l.loggedInUsers.filter fun e => e.1 ≠ self).map fun e =>
    buildUserAdded .zero now e.2.name.bytes e.2.nameLength false

/-- The copy into `login_name`, and its two checks. -/
def loginNameAccesses (env : Env) (l : UserList) (m : CombinedMessage) (msgLength : Nat) :
    List Access :=
  ⟨.loginName, loginCopySize msgLength⟩ ::
    .source .authenticationName (m.body.slice 5 netNameLen) (loginCopySize msgLength) ::
    .string .loginName (loginName m msgLength).bytes ::
    compareNamesAccesses l (cstr (loginMem env m msgLength))

/-- The answer to a login request. -/
def loginAnswerAccesses (cfg : Config) (code : LoginResponseCode) : List Access :=
  buildLoginResponseAccesses cfg code ++ networkSendAccesses (buildLoginResponse cfg code).msg

/-- `login_User`, and the reads of the stored name behind it. -/
def loginUserAccesses (u : User) (m : CombinedMessage) (msgLength : Nat) (name : List UInt8) :
    List Access :=
  let size := loginSize msgLength
  [.source .loginName (loginName m msgLength).bytes size, ⟨.userName, size⟩,
    .string .userName (u.login name size).name.bytes]

/-- `build_User_Added` over a cleared message for the entry `u`. -/
def userAddedAccesses (now : UInt64) (u : User) (useTimeStamp : Bool) : List Access :=
  buildUserAddedAccesses .zero now u.name.bytes u.nameLength useTimeStamp

/-- The loop that tells a newcomer about the users already there. -/
def snapshotAccesses (now : UInt64) (l : UserList) (self : UserPtr) : List Access :=
  (l.loggedInUsers.filter fun e => e.1 ≠ self).flatMap fun e =>
    userAddedAccesses now e.2 false ++
      networkSendAccesses (buildUserAdded .zero now e.2.name.bytes e.2.nameLength false).msg

/-- A login that passed the checks: the entry is written, the others are told through the
queue, and the newcomer is told about the others. -/
def loginAccepted (cfg : Config) (env : Env) (self : UserPtr) (u : User) (sv : Server)
    (m : CombinedMessage) (msgLength : Nat) : Handled :=
  let name := loginMem env m msgLength
  let size := loginSize msgLength
  let users := sv.users.loginUser self name size
  let notice := loginNotice env.now (u.login name size)
  let (sent, queue) := broadcastMessage sv.queue notice.msg none
  { server := { sv with users, queue }
    msg := .zero
    out := .reply u.sock (buildLoginResponse cfg .success) ::
      .registerLog env.thread (u.login name size).cname :: .enqueue notice sent ::
        (snapshot env.now users self).map (.reply u.sock)
    accesses := loginNameAccesses env sv.users m msgLength ++ loginAnswerAccesses cfg .success ++
      loginUserAccesses u m msgLength name ++ userAddedAccesses env.now (u.login name size) true ++
      snapshotAccesses env.now users self }

/-- `case NV_Received_login`. -/
def handleLogin (cfg : Config) (env : Env) (self : UserPtr) (u : User) (sv : Server)
    (m : CombinedMessage) (msgLength : Nat) : Handled :=
  let code := loginResponse sv.users (loginMem env m msgLength)
  if code = .success then loginAccepted cfg env self u sv m msgLength
  else
    { server := sv
      msg := .zero
      out := [.reply u.sock (buildLoginResponse cfg code)]
      accesses := loginNameAccesses env sv.users m msgLength ++ loginAnswerAccesses cfg code }

/-! ## Messages and commands -/

/-- `case NV_Received_Message`. -/
def handleMessage (cfg : Config) (env : Env) (u : User) (sv : Server) (m : CombinedMessage)
    (msgLength : Nat) : Handled :=
  let o := buildServerToClient m env.now msgLength u.name.bytes u.nameLength
  let (sent, queue) := broadcastMessage sv.queue o.msg none
  let full := buildServerResponse cfg o.msg env.now
    (lit "Message Queue is sadly full, wait for admin to resume chat")
  { server := { sv with queue }
    -- The refusal is built over the chat message, not over a cleared one.
    msg := if sent then o.msg else full.msg
    out := .enqueue o sent :: if sent then [] else [.reply u.sock full]
    accesses :=
      buildServerToClientAccesses m env.now msgLength u.name.bytes u.nameLength ++
        if sent then []
        else
          buildServerResponseAccesses cfg o.msg env.now
              (lit "Message Queue is sadly full, wait for admin to resume chat") ++
            networkSendAccesses full.msg }

/-- A reply to the sender and no other effect. -/
def replyOnly (cfg : Config) (env : Env) (u : User) (sv : Server) (m : CombinedMessage)
    (text : List UInt8) : Handled :=
  let o := buildServerResponse cfg m env.now text
  { server := sv
    msg := o.msg
    out := [.reply u.sock o]
    accesses := buildServerResponseAccesses cfg m env.now text ++ networkSendAccesses o.msg }

/-- One message to every logged-in user. -/
def notifyAll (l : UserList) (o : Outgoing) : List Output :=
  l.loggedInUsers.map fun e => .notify e.2.sock o

/-- A text from the server to every logged-in user, built over the request. -/
def announceAccesses (cfg : Config) (env : Env) (l : UserList) (m : CombinedMessage)
    (text : List UInt8) : List Access :=
  buildServerResponseAccesses cfg m env.now text ++
    l.loggedInUsers.flatMap fun _ =>
      networkSendAccesses (buildServerResponse cfg m env.now text).msg

/-- `name_to_kick` as a string, after the scan. -/
def kickName (env : Env) (m : CombinedMessage) : List UInt8 :=
  cstr ((scanKick (cstr m.body.bytes)).getD env.nameToKick)

/-- The scan stores its match and a NUL; `name_to_kick` is then compared and printed. -/
def kickAccesses (env : Env) (l : UserList) (m : CombinedMessage) : List Access :=
  .string .clientText m.text ::
    ((scanKick (cstr m.body.bytes)).map fun arg => ⟨.nameToKick, arg.length + 1⟩).toList ++
    .string .nameToKick (((scanKick (cstr m.body.bytes)).getD env.nameToKick).take netNameLen) ::
    compareNamesAccesses l (kickName env m)

/-- The first logged-in user of a name. -/
def kickTarget (l : UserList) (name : List UInt8) : Option (UserPtr × User) :=
  l.entries.find? fun e => e.2.cname == name && e.2.loggedIn

/-- `case AC_Kick`. -/
def handleKick (cfg : Config) (env : Env) (u : User) (sv : Server) (m : CombinedMessage) :
    Handled :=
  match kickTarget sv.users (kickName env m) with
  | some (target, v) =>
      { server := { sv with users := sv.users.userShouldShutdown target }
        msg := m
        out := [.kick target v.sock]
        accesses := kickAccesses env sv.users m }
  | none =>
      let r := replyOnly cfg env u sv m
        (lit "[name: " ++ kickName env m ++ lit "] is not in user list")
      { r with accesses := kickAccesses env sv.users m ++ r.accesses }

/-- `case AC_Pause`. -/
def handlePause (cfg : Config) (env : Env) (u : User) (sv : Server) (m : CombinedMessage) :
    Handled :=
  if sv.broadcastPaused then replyOnly cfg env u sv m (lit "Server is already paused")
  else
    let o := buildServerResponse cfg m env.now (lit "admin has paused the server")
    { server := { sv with broadcastPaused := true }
      msg := o.msg
      out := .pause :: notifyAll sv.users o
      accesses := announceAccesses cfg env sv.users m (lit "admin has paused the server") }

/-- `case AC_Resume`. -/
def handleResume (cfg : Config) (env : Env) (u : User) (sv : Server) (m : CombinedMessage) :
    Handled :=
  if sv.broadcastPaused then
    let o := buildServerResponse cfg m env.now (lit "admin has resumed the server")
    { server := { sv with broadcastPaused := false }
      msg := o.msg
      out := notifyAll sv.users o ++ [.resume]
      accesses := announceAccesses cfg env sv.users m (lit "admin has resumed the server") }
  else replyOnly cfg env u sv m (lit "Server is not paused, [/resume] makes no sense")

/-- `case AC_Help`: one message a row. The first is built over the request, the others
over a cleared message. -/
def handleHelp (env : Env) (u : User) (sv : Server) (m : CombinedMessage) : Handled where
  server := sv
  msg := .zero
  out :=
    -- `memset` follows each send, so only the first row finds the request in the buffer.
    let buffers := m :: List.replicate (allAdminCommandsData.length - 1) .zero
    (allAdminCommandsData.zip buffers).map fun (row, buffer) =>
      .reply u.sock (buildServerResponseSpecial buffer env.now row.syntaxWord row.description)
  accesses :=
    let buffers := m :: List.replicate (allAdminCommandsData.length - 1) .zero
    (allAdminCommandsData.zip buffers).flatMap fun (row, buffer) =>
      buildServerResponseSpecialAccesses buffer env.now row.syntaxWord row.description ++
        networkSendAccesses
          (buildServerResponseSpecial buffer env.now row.syntaxWord row.description).msg

/-- `case NV_Received_Server_command`. -/
def handleCommand (cfg : Config) (env : Env) (u : User) (sv : Server) (m : CombinedMessage) :
    Handled :=
  if u.cname = cfg.adminName.bytes then
    match getServerCommand (cstr m.body.bytes) with
    | .kick => handleKick cfg env u sv m
    | .pause => handlePause cfg env u sv m
    | .resume => handleResume cfg env u sv m
    | .help => handleHelp env u sv m
    | .shutdown | .noValidCommand =>
        replyOnly cfg env u sv m
          (lit "Caution! detected invalid [server_commands] " ++ cstr m.body.bytes)
  else
    replyOnly cfg env u sv m
      (lit "Caution! You dont have required permissions for [server_commands]")

/-- What is read before the switch over the commands: the two names, and the administrator's
text. -/
def commandTestAccesses (cfg : Config) (u : User) (m : CombinedMessage) : List Access :=
  .string .userName u.name.bytes :: .string .adminName cfg.adminName.bytes ::
    if u.cname = cfg.adminName.bytes then getServerCommandAccesses m else []

/-! ## The loop and its end -/

/-- The switch on the validation code. -/
def handleFrame (cfg : Config) (env : Env) (self : UserPtr) (u : User) (sv : Server)
    (code : NetworkValidationCode) (m : CombinedMessage) : Handled :=
  match code with
  | .receivedLogin => handleLogin cfg env self u sv m m.header.length.toNat
  | .receivedMessage => handleMessage cfg env u sv m m.header.length.toNat
  | .receivedServerCommand => handleCommand cfg env u sv m
  | .invalidLength | .magicNumInvalid | .versionInvalid | .nameLengthInvalid =>
      { server := { sv with users := sv.users.userShouldShutdown self }, msg := m, out := []
        accesses := [] }
  | .zero => { server := sv, msg := m, out := [], accesses := [] }

/-- `network_Receive` reads a body for this header. -/
def readsBody (hdr : MessageHeader) : Bool :=
  hdr.length != 0 &&
    (hdr.type == MessageType.loginRequest.code || hdr.type == MessageType.clientToServer.code)

/-- One pass of the loop, from what it received on. -/
def clientPass (cfg : Config) (env : Env) (self : UserPtr) (u : User) (sv : Server) :
    Received → Handled
  | .closed _ => { server := sv, msg := .zero, out := [.recv u.sock], accesses := [] }
  | .frame _ code m bytesRead =>
      let h := handleFrame cfg env self u sv code m
      { h with
        out := .recv u.sock :: (if readsBody m.header then [.read u.sock] else []) ++ h.out
        accesses := ⟨.body, bytesRead.toNat⟩ ::
          (if code = .receivedServerCommand then commandTestAccesses cfg u m else []) ++
          h.accesses }

/-- `CS_Closed_Connection`. -/
def csClosedConnection : Int := 2

/-- The reason given for the end of a session. -/
def teardownReason (status : Int) (u : User) (reason : ClientDisconnectCode) :
    ClientDisconnectCode :=
  if status = csClosedConnection then .connectionClosedByClient
  else if u.shouldShutdown then .kickedFromTheServer
  else reason

/-- The notice that a user has gone. -/
def teardownNotice (now : UInt64) (m : CombinedMessage) (reason : ClientDisconnectCode)
    (u : User) : Outgoing :=
  buildUserRemoved m now reason u.name.bytes u.nameLength

/-- What `client_Thread` does behind its receive loop. -/
def clientTeardown (env : Env) (self : UserPtr) (u : User) (sv : Server) (status : Int)
    (reason : ClientDisconnectCode) (m : CombinedMessage) : Handled :=
  -- `logout_user` comes first, so the loop would pass over `self` even without its second test.
  let users := sv.users.logoutUser self
  let o := teardownNotice env.now m (teardownReason status u reason) u
  let notices := (users.loggedInUsers.filter fun e => e.1 ≠ self).map fun e =>
    Output.notify e.2.sock o
  { server := { sv with users := (users.removeUser u.sock).2 }
    msg := if u.nameLength ≠ 0 then o.msg else m
    out := (if u.nameLength ≠ 0 then notices else []) ++ [.close u.sock]
    accesses :=
      if u.nameLength ≠ 0 then
        buildUserRemovedAccesses m env.now (teardownReason status u reason) u.name.bytes
            u.nameLength ++
          (users.loggedInUsers.filter fun e => e.1 ≠ self).flatMap fun _ =>
            networkSendAccesses o.msg
      else [] }

end LinuxChat
