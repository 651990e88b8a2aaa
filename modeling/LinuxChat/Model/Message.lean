import LinuxChat.Model.Defines

/-!
# Messages and their builders

`CombinedMessage` is a 3-byte header and a union of five packed structures
over the same 552 bytes, so the body is kept as the bytes it is and the
structures are offsets into it:

* `Authentication` — magic 0..3, version 4, name 5..35;
* `Client2Server` — text 0..511;
* `Server2Client` — timestamp 0..7, originalSender 8..39, text 40..551;
* `UserAdded` — timestamp 0..7, name 8..38;
* `UserRemoved` — timestamp 0..7, code 8, name 9..39.

A builder returns the message and, for the proofs, the number of body bytes
it encoded: its fixed fields and what it copied from its source into the last
field, the NUL padding of `strncpy` not counted.
-/

namespace LinuxChat

open CMem

/-! ## Enumerations of network.h -/

/-- `message_type`. -/
inductive MessageType
  | loginRequest
  | loginResponse
  | clientToServer
  | serverToClient
  | userAdd
  | userRemove
  deriving DecidableEq, Repr

/-- The byte a message type has on the wire. -/
def MessageType.code : MessageType → UInt8
  | .loginRequest => 0
  | .loginResponse => 1
  | .clientToServer => 2
  | .serverToClient => 3
  | .userAdd => 4
  | .userRemove => 5

/-- `login_response_code`. -/
inductive LoginResponseCode
  | success
  | nameTaken
  | nameInvalid
  | versionMismatch
  | unknownServerError
  deriving DecidableEq, Repr

def LoginResponseCode.code : LoginResponseCode → UInt8
  | .success => 0
  | .nameTaken => 1
  | .nameInvalid => 2
  | .versionMismatch => 3
  | .unknownServerError => 255

/-- `client_disconnect_code`. -/
inductive ClientDisconnectCode
  | connectionClosedByClient
  | kickedFromTheServer
  | communicationError
  deriving DecidableEq, Repr

def ClientDisconnectCode.code : ClientDisconnectCode → UInt8
  | .connectionClosedByClient => 0
  | .kickedFromTheServer => 1
  | .communicationError => 2

/-! ## Layout -/

/-- The size of the body union. -/
def bodySize : Nat := 552

/-- `sizeof(MessageHeader)`. -/
def headerSize : Nat := 3

/-- `sizeof(CombinedMessage)`. -/
def combinedSize : Nat := headerSize + bodySize

/-- `MessageHeader`, its length as `ntohs` reads it. -/
structure MessageHeader where
  type : UInt8
  length : UInt16
  deriving DecidableEq, Repr

/-- The header in memory after `data` was received over zeroed bytes. -/
def MessageHeader.ofWire (data : List UInt8) : MessageHeader where
  type := data.getD 0 0
  length := UInt16.ofNat ((data.getD 1 0).toNat * 256 + (data.getD 2 0).toNat)

/-- The three bytes of a header. -/
def MessageHeader.wire (hdr : MessageHeader) : List UInt8 :=
  [hdr.type, UInt8.ofNat (hdr.length.toNat / 256), UInt8.ofNat hdr.length.toNat]

@[simp] theorem MessageHeader.length_wire (hdr : MessageHeader) : hdr.wire.length = headerSize :=
  rfl

/-- What is sent is what is received. -/
theorem MessageHeader.ofWire_wire (hdr : MessageHeader) : ofWire hdr.wire = hdr := by
  have := hdr.length.toNat_lt
  cases hdr with
  | mk type length =>
      simp only [wire, ofWire, List.getD_cons_zero, List.getD_cons_succ, mk.injEq, true_and]
      apply UInt16.toNat_inj.mp
      simp only [UInt8.toNat_ofNat', UInt16.toNat_ofNat']
      simp only at this
      omega

/-- `CombinedMessage`. -/
structure CombinedMessage where
  header : MessageHeader
  body : Buf bodySize
  deriving DecidableEq

/-- `memset(msg, 0, sizeof(CombinedMessage))`. -/
def CombinedMessage.zero : CombinedMessage := ⟨⟨0, 0⟩, Buf.zero bodySize⟩

namespace CombinedMessage

/-- `client2Server.text` as the memory at its address. -/
def text (m : CombinedMessage) : List UInt8 := m.body.slice 0 netTextLen

/-- `Authentication.name` as the memory at its address: the field and the body behind it. -/
def authName (m : CombinedMessage) : List UInt8 := m.body.bytes.drop 5

/-- `server2Client.originalSender`. -/
def originalSender (m : CombinedMessage) : List UInt8 := m.body.slice 8 netNameLenPlus

/-- The bytes `network_Send` passes to `send`, as far as they lie in the message. -/
def wire (m : CombinedMessage) : List UInt8 :=
  m.header.wire ++ m.body.bytes.take m.header.length.toNat

end CombinedMessage

/-- The builders of network.c. -/
inductive Builder
  | loginResponse
  | userAdded
  | userRemoved
  | serverToClient
  | serverResponse
  | serverResponseSpecial
  deriving DecidableEq, Repr

/-- A message as its builder leaves it. -/
structure Outgoing where
  builder : Builder
  msg : CombinedMessage
  encoded : Nat
  deriving DecidableEq

/-! ## Builders -/

/-- `(time_t)-1`. -/
def timeError : UInt64 := 0xFFFFFFFFFFFFFFFF

/-- The timestamp field: the time, or 0 if it is not wanted or not known. -/
def timestamp (now : UInt64) (use : Bool) : List UInt8 :=
  if use && now != timeError then be64 now else be64 0

@[simp] theorem length_timestamp (now : UInt64) (use : Bool) : (timestamp now use).length = 8 := by
  unfold timestamp; split <;> rfl

/-- `build_login_response`. The message is cleared first, and `strcpy` stores the
terminator of the name too. -/
def buildLoginResponse (cfg : Config) (code : LoginResponseCode) : Outgoing where
  builder := .loginResponse
  msg :=
    { header := ⟨MessageType.loginResponse.code, UInt16.ofNat (5 + cfg.serverName.bytes.length)⟩
      body := ((Buf.zero bodySize).write 0 (be32 0xc001c001)).write 4 [code.code]
        |>.write 5 (cfg.serverName.bytes ++ [0]) }
  encoded := 5 + cfg.serverName.bytes.length

/-- `build_User_Added`. The length is `strlen` of the name field, which runs on into
the body behind it. -/
def buildUserAdded (m : CombinedMessage) (now : UInt64) (name : List UInt8) (size : Nat)
    (useTimeStamp : Bool) : Outgoing :=
  let body := (m.body.write 0 (timestamp now useTimeStamp)).write 8 (strncpy name size)
  { builder := .userAdded
    msg :=
      -- `strlen`, not `size`: the field is read up to its first NUL.
      { header := ⟨MessageType.userAdd.code,
          UInt16.ofNat (8 + (cstr (body.bytes.drop 8)).length)⟩
        body }
    encoded := 8 + (cstr (name.take size)).length }

/-- `build_User_Removed`. -/
def buildUserRemoved (m : CombinedMessage) (now : UInt64) (code : ClientDisconnectCode)
    (name : List UInt8) (size : Nat) : Outgoing where
  builder := .userRemoved
  msg :=
    -- `size`, not `strlen`.
    { header := ⟨MessageType.userRemove.code, UInt16.ofNat (9 + size)⟩
      body := ((m.body.write 0 (timestamp now true)).write 8 [code.code]).write 9
        (strncpy name size) }
  encoded := 9 + (cstr (name.take size)).length

/-- `build_Server_to_client`: a text frame is turned into a chat message in place. The
text is saved, its 512 bytes are cleared, and it is stored again 40 bytes further. -/
def buildServerToClient (m : CombinedMessage) (now : UInt64) (msgLength : Nat)
    (originalSender : List UInt8) (nameSize : Nat) : Outgoing where
  builder := .serverToClient
  msg :=
    { header := ⟨MessageType.serverToClient.code, UInt16.ofNat (40 + msgLength)⟩
      body := ((m.body.write 0 (List.replicate netTextLen 0)).write 0 (timestamp now true))
        |>.write 8 (strncpy originalSender nameSize)
        |>.write 40 (strncpy m.text msgLength) }
  encoded := 40 + (cstr (m.text.take msgLength)).length

/-- The body of a reply: time, sender and text, each without a terminator, over whatever
the body held before. -/
def replyBody (m : CombinedMessage) (now : UInt64) (sender text : List UInt8) : Buf bodySize :=
  ((m.body.write 0 (timestamp now true)).write 8 sender).write 40 text

/-- `build_Server_response`, its format already expanded; `vsnprintf` keeps 511 bytes. -/
def buildServerResponse (cfg : Config) (m : CombinedMessage) (now : UInt64)
    (text : List UInt8) : Outgoing :=
  let formatted := cstr (text.take (netTextLen - 1))
  { builder := .serverResponse
    msg :=
      { header := ⟨MessageType.serverToClient.code, UInt16.ofNat (40 + formatted.length)⟩
        body := replyBody m now cfg.serverName.bytes formatted }
    encoded := 40 + formatted.length }

/-- `build_Server_response_Special`, with a sender of its own. -/
def buildServerResponseSpecial (m : CombinedMessage) (now : UInt64) (name text : List UInt8) :
    Outgoing :=
  let formatted := cstr (text.take (netTextLen - 1))
  { builder := .serverResponseSpecial
    msg :=
      { header := ⟨MessageType.serverToClient.code, UInt16.ofNat (40 + formatted.length)⟩
        body := replyBody m now name formatted }
    encoded := 40 + formatted.length }

end LinuxChat
