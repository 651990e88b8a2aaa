import LinuxChat.Lib.ByteStream
import LinuxChat.Model.Message

/-!
# Receiving one message

`Check_for_Message` asks for the header, `network_Receive` for the body, both
with one call and without looking at how much came. Both are written over an
arbitrary `Source`, so that the same definition reads scripted results and a
stream that is split anyhow.
-/

namespace LinuxChat

open CMem ByteStream

/-- `network_validation_code`; `zero` is the value `return_val` starts with, which names
no enumerator. -/
inductive NetworkValidationCode
  | zero
  | receivedLogin
  | receivedMessage
  | receivedServerCommand
  | invalidLength
  | magicNumInvalid
  | versionInvalid
  | nameLengthInvalid
  deriving DecidableEq, Repr

def NetworkValidationCode.toInt : NetworkValidationCode → Int
  | .zero => 0
  | .receivedLogin => 1
  | .receivedMessage => 2
  | .receivedServerCommand => 3
  | .invalidLength => -1
  | .magicNumInvalid => -2
  | .versionInvalid => -3
  | .nameLengthInvalid => -4

/-- The count `recv` and `read` return: -1 for an error. -/
def returned : Option (List UInt8) → Int
  | none => -1
  | some data => data.length

/-- The bytes a call stored. -/
def stored : Option (List UInt8) → List UInt8
  | none => []
  | some data => data

/-- `ntohl(message->Authentication.magic) == 0x0badf00d`. -/
def magicValid (m : CombinedMessage) : Bool := m.body.slice 0 4 == be32 0x0badf00d

/-- `message->Authentication.version == 0`. -/
def versionValid (m : CombinedMessage) : Bool := m.body.slice 4 1 == [0]

/-- `message->client2Server.text[0] == '/'`. -/
def isCommandText (m : CombinedMessage) : Bool := m.body.slice 0 1 == lit "/"

/-- The code of a login request: three checks, the last failing one wins. -/
def loginCode (m : CombinedMessage) (bytesRead : Int) : NetworkValidationCode :=
  let val := NetworkValidationCode.receivedLogin
  let val := if magicValid m then val else .magicNumInvalid
  let val := if versionValid m then val else .versionInvalid
  if 5 < bytesRead ∧ bytesRead < 37 then val else .nameLengthInvalid

/-- The code of a text. The length check sets `return_val` too, but the test of the first
byte overwrites it on both branches. -/
def textCode (m : CombinedMessage) (bytesRead : Int) : NetworkValidationCode :=
  let val := NetworkValidationCode.zero
  -- The length check sets `return_val`; nothing reads it before it is set again.
  let _checked := if 0 < bytesRead ∧ bytesRead < netTextLen then val else .nameLengthInvalid
  if isCommandText m then .receivedServerCommand else .receivedMessage

variable {σ : Type}

/-- `Check_for_Message`: ask for the three header bytes over a cleared message. -/
def checkForMessage (src : Source σ) (s : σ) : Int × MessageHeader × σ :=
  let (r, s') := src.ask headerSize s
  (returned r, MessageHeader.ofWire (stored r), s')

/-- `network_Receive` on a message whose header is in place. -/
def networkReceive (src : Source σ) (m : CombinedMessage) (s : σ) :
    NetworkValidationCode × CombinedMessage × Int × σ :=
  let msgLen := m.header.length.toNat
  -- A message without a body is refused before its type is looked at.
  if msgLen = 0 then (.invalidLength, m, 0, s)
  else if m.header.type = MessageType.loginRequest.code then
    let (r, s') := src.ask msgLen s
    let m' := { m with body := m.body.write 0 (stored r) }
    (loginCode m' (returned r), m', returned r, s')
  else if m.header.type = MessageType.clientToServer.code then
    let (r, s') := src.ask msgLen s
    let m' := { m with body := m.body.write 0 (stored r) }
    (textCode m' (returned r), m', returned r, s')
  -- Any other type: the body stays in the socket.
  else (.zero, m, 0, s)

/-- What one pass of the receive loop gets from the socket. -/
inductive Received
  /-- `recv` returned 0 or -1: the loop is left. -/
  | closed (status : Int)
  /-- A message, its validation code, and the counts of the two calls. -/
  | frame (status : Int) (code : NetworkValidationCode) (msg : CombinedMessage) (bytesRead : Int)
  deriving DecidableEq

/-- The receiving half of the loop body. -/
def receive (src : Source σ) (s : σ) : Received × σ :=
  let (status, header, s') := checkForMessage src s
  if status ≤ 0 then (.closed status, s')
  else
    let (code, msg, bytesRead, s'') := networkReceive src { CombinedMessage.zero with header } s'
    (.frame status code msg bytesRead, s'')

end LinuxChat
