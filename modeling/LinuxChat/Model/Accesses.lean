import LinuxChat.Model.Application
import LinuxChat.Model.Message
import LinuxChat.Model.User

/-!
# Accesses and their arrays

The copies and string reads of a pass, each with the array it is made to and
the number of bytes it touches from the beginning of that array on. A field
of a packed structure is an array of its own: that the bytes behind it belong
to the same message does not keep an access inside.

A string function reads up to the terminator (`Access.string`), and
`strncpy` reads as many bytes as it is told to or up to the terminator
(`Access.source`). The logger's own buffers are those of `LogFormat`.
-/

namespace LinuxChat

open CMem

/-- The arrays a pass of `client_Thread` reads and writes. -/
inductive CArray
  /-- The `CombinedMessage` at `msg`. -/
  | message
  /-- Its union of bodies. -/
  | body
  /-- `Authentication.name`. -/
  | authenticationName
  /-- `client2Server.text`. -/
  | clientText
  /-- `server2Client.originalSender`. -/
  | originalSender
  /-- `server2Client.text`. -/
  | serverText
  /-- `userAdded.name`. -/
  | userAddedName
  /-- `userRemoved.name`. -/
  | userRemovedName
  /-- `loc_text` in `build_Server_to_client`. -/
  | locText
  /-- `text_formatted` in the builders of replies. -/
  | textFormatted
  /-- `login_name`. -/
  | loginName
  /-- `name_to_kick`. -/
  | nameToKick
  /-- `first_word` in `get_server_command`. -/
  | firstWord
  /-- `User.name`. -/
  | userName
  /-- `server_name`. -/
  | serverName
  /-- `admin_name`. -/
  | adminName
  deriving DecidableEq, Repr

/-- The sizes the arrays are declared with. -/
def CArray.size : CArray → Nat
  | .message => combinedSize
  | .body => bodySize
  | .authenticationName | .userAddedName | .userRemovedName | .loginName | .nameToKick => netNameLen
  | .originalSender | .userName => netNameLenPlus
  | .clientText | .serverText | .locText | .textFormatted => netTextLen
  | .firstWord | .serverName | .adminName => 32

/-- An access to the first `bytes` bytes of an array. -/
structure Access where
  array : CArray
  bytes : Nat
  deriving DecidableEq, Repr

namespace Access

/-- The access stays inside its array. -/
def inside (a : Access) : Bool := a.bytes ≤ a.array.size

/-- A string function on an array that holds `content`. -/
def string (array : CArray) (content : List UInt8) : Access := ⟨array, (cstr content).length + 1⟩

/-- `strncpy` of `n` bytes from an array that holds `content`. -/
def source (array : CArray) (content : List UInt8) (n : Nat) : Access :=
  ⟨array, min n ((cstr content).length + 1)⟩

end Access

/-! ## network.c -/

/-- `Print_message_Info`: each message with the strings in it. -/
def printMessageInfoAccesses (m : CombinedMessage) : List Access :=
  if m.header.type = MessageType.loginRequest.code ∨
      m.header.type = MessageType.loginResponse.code then
    [.string .authenticationName (m.body.slice 5 netNameLen)]
  else if m.header.type = MessageType.clientToServer.code then [.string .clientText m.text]
  else if m.header.type = MessageType.serverToClient.code then
    [.string .originalSender m.originalSender, .string .serverText (m.body.slice 40 netTextLen)]
  else if m.header.type = MessageType.userAdd.code then
    [.string .userAddedName (m.body.slice 8 netNameLen)]
  else if m.header.type = MessageType.userRemove.code then
    [.string .userRemovedName (m.body.slice 9 netNameLen)]
  else []

/-- `network_Send`: the message is printed, and read up to its announced length. -/
def networkSendAccesses (m : CombinedMessage) : List Access :=
  printMessageInfoAccesses m ++ [⟨.message, headerSize + m.header.length.toNat⟩]

/-- `build_login_response`: its `strcpy` stores the terminator too. -/
def buildLoginResponseAccesses (cfg : Config) (code : LoginResponseCode) : List Access :=
  .string .serverName cfg.serverName.bytes ::
    ⟨.authenticationName, cfg.serverName.bytes.length + 1⟩ ::
    printMessageInfoAccesses (buildLoginResponse cfg code).msg

/-- `build_User_Added`. -/
def buildUserAddedAccesses (m : CombinedMessage) (now : UInt64) (name : List UInt8) (size : Nat)
    (useTimeStamp : Bool) : List Access :=
  let o := buildUserAdded m now name size useTimeStamp
  .source .userName name size :: ⟨.userAddedName, size⟩ ::
    -- `strlen(loc_msg->userAdded.name)`.
    .string .userAddedName (o.msg.body.slice 8 netNameLen) :: printMessageInfoAccesses o.msg

/-- `build_User_Removed`. -/
def buildUserRemovedAccesses (m : CombinedMessage) (now : UInt64) (code : ClientDisconnectCode)
    (name : List UInt8) (size : Nat) : List Access :=
  .source .userName name size :: ⟨.userRemovedName, size⟩ ::
    printMessageInfoAccesses (buildUserRemoved m now code name size).msg

/-- `build_Server_to_client`. -/
def buildServerToClientAccesses (m : CombinedMessage) (now : UInt64) (msgLength : Nat)
    (originalSender : List UInt8) (nameSize : Nat) : List Access :=
  ⟨.clientText, netTextLen⟩ :: ⟨.locText, netTextLen⟩ ::
    .source .userName originalSender nameSize :: ⟨.originalSender, nameSize⟩ ::
    .source .locText m.text msgLength :: ⟨.serverText, msgLength⟩ ::
    printMessageInfoAccesses (buildServerToClient m now msgLength originalSender nameSize).msg

/-- The expansion of a reply's format, and the copy of it into the message. -/
def formattedAccesses (text : List UInt8) : List Access :=
  let formatted := cstr (text.take (netTextLen - 1))
  [⟨.textFormatted, (text.take (netTextLen - 1)).length + 1⟩, .string .textFormatted formatted,
    ⟨.serverText, formatted.length⟩]

/-- `build_Server_response`. -/
def buildServerResponseAccesses (cfg : Config) (m : CombinedMessage) (now : UInt64)
    (text : List UInt8) : List Access :=
  .string .serverName cfg.serverName.bytes ::
    ⟨.originalSender, cfg.serverName.bytes.length⟩ ::
    (formattedAccesses text ++ printMessageInfoAccesses (buildServerResponse cfg m now text).msg)

/-- `build_Server_response_Special`; its two strings are literals. -/
def buildServerResponseSpecialAccesses (m : CombinedMessage) (now : UInt64)
    (name text : List UInt8) : List Access :=
  ⟨.originalSender, name.length⟩ ::
    (formattedAccesses text ++
      printMessageInfoAccesses (buildServerResponseSpecial m now name text).msg)

/-! ## user.c and application.c -/

/-- The entries a loop looks at that ends at the first one `stop` holds of. -/
def UserList.visited (l : UserList) (stop : UserPtr × User → Bool) : List (UserPtr × User) :=
  l.entries.take (l.entries.findIdx stop + 1)

/-- A loop that compares a name with those in the list. -/
def compareNamesAccesses (l : UserList) (name : List UInt8) : List Access :=
  (l.visited fun e => e.2.cname == name && e.2.loggedIn).map fun e =>
    .string .userName e.2.name.bytes

/-- `get_server_command`: the scan for the first word stores it with a NUL. -/
def getServerCommandAccesses (m : CombinedMessage) : List Access :=
  .string .clientText m.text ::
    ((scanWord 31 (cstr m.body.bytes)).map fun w => ⟨.firstWord, w.length + 1⟩).toList

end LinuxChat
