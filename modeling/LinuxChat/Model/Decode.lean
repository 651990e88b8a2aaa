import LinuxChat.Model.ByteOrder
import LinuxChat.Model.Message

/-!
# What a client reads from a message

The packed layout of network.h from the other side: a u8 type, a big-endian
u16 length, the fields of the type, 64-bit timestamps in network order, and a
last field that takes what is left of the announced length.
-/

namespace LinuxChat

open ByteOrder

/-- The fields of a message the server sends. -/
inductive Decoded
  | loginResponse (magic : UInt32) (code : UInt8) (name : List UInt8)
  | userAdded (timestamp : UInt64) (name : List UInt8)
  | userRemoved (timestamp : UInt64) (code : UInt8) (name : List UInt8)
  | serverToClient (timestamp : UInt64) (originalSender text : List UInt8)
  deriving DecidableEq

/-- A `u32` field read with `ntohl`. -/
def readU32 (o : Order) (mem : List UInt8) : UInt32 :=
  ntohl o (UInt32.ofNat (o.load (mem.take 4)))

/-- A `u64` field read with `ntohll`. -/
def readU64 (o : Order) (mem : List UInt8) : UInt64 :=
  ntohll o (UInt64.ofNat (o.load (mem.take 8)))

/-- The fields of a body, by its type. -/
def decodeBody (o : Order) (type : UInt8) (body : List UInt8) : Option Decoded :=
  if type = MessageType.loginResponse.code ∧ 5 ≤ body.length then
    some (.loginResponse (readU32 o body) (body.getD 4 0) (body.drop 5))
  else if type = MessageType.userAdd.code ∧ 8 ≤ body.length then
    some (.userAdded (readU64 o body) (body.drop 8))
  else if type = MessageType.userRemove.code ∧ 9 ≤ body.length then
    some (.userRemoved (readU64 o body) (body.getD 8 0) (body.drop 9))
  else if type = MessageType.serverToClient.code ∧ 40 ≤ body.length then
    some (.serverToClient (readU64 o body) ((body.drop 8).take netNameLenPlus) (body.drop 40))
  else none

/-- The message at the start of `bytes`, on a machine of byte order `o`. -/
def decode (o : Order) (bytes : List UInt8) : Option Decoded :=
  let header := MessageHeader.ofWire bytes
  let body := (bytes.drop headerSize).take header.length.toNat
  if body.length = header.length.toNat then decodeBody o header.type body else none

/-- What was put into a field of a word is read from it, whatever lies behind. -/
theorem readU64_be64 (o : Order) (x : UInt64) (rest : List UInt8) :
    readU64 o (be64 x ++ rest) = x := by
  have hlen : (be64 x).length = 8 := length_be64 x
  have hload : (UInt64.ofNat (o.load (be64 x))).toNat = o.load (be64 x) := by
    have hlt := o.load_lt (be64 x)
    rw [hlen] at hlt
    rw [UInt64.toNat_ofNat']
    exact Nat.mod_eq_of_lt hlt
  have hstore := o.store_load (be64 x)
  rw [hlen] at hstore
  apply UInt64.toNat_inj.mp
  rw [readU64, List.take_left' hlen, toNat_ntohll, hload, hstore, be64_eq]
  exact ofBytes_toBytes x.toNat_lt

/-! ## Bodies -/

theorem decodeBody_loginResponse (o : Order) (code : UInt8) (name : List UInt8) :
    decodeBody o MessageType.loginResponse.code (be32 0xc001c001 ++ code :: name) =
      some (.loginResponse 0xc001c001 code name) := by
  have hmagic : readU32 o (be32 0xc001c001 ++ code :: name) = 0xc001c001 := by
    rw [readU32, List.take_left' (length_be32 _)]
    cases o <;> decide
  rw [decodeBody, if_pos ⟨rfl, by simp; omega⟩, hmagic]
  rfl

theorem decodeBody_userAdded (o : Order) (time : UInt64) (name : List UInt8) :
    decodeBody o MessageType.userAdd.code (be64 time ++ name) = some (.userAdded time name) := by
  have hother : MessageType.userAdd.code ≠ MessageType.loginResponse.code := by decide
  rw [decodeBody, if_neg fun h => hother h.1, if_pos ⟨rfl, by simp⟩, readU64_be64,
    List.drop_left' (length_be64 _)]

theorem decodeBody_userRemoved (o : Order) (time : UInt64) (code : UInt8) (name : List UInt8) :
    decodeBody o MessageType.userRemove.code (be64 time ++ code :: name) =
      some (.userRemoved time code name) := by
  have hlogin : MessageType.userRemove.code ≠ MessageType.loginResponse.code := by decide
  have hadd : MessageType.userRemove.code ≠ MessageType.userAdd.code := by decide
  rw [decodeBody, if_neg fun h => hlogin h.1, if_neg fun h => hadd h.1,
    if_pos ⟨rfl, by simp; omega⟩, readU64_be64]
  rfl

theorem decodeBody_serverToClient (o : Order) (time : UInt64) {sender : List UInt8}
    (text : List UInt8) (hsender : sender.length = netNameLenPlus) :
    decodeBody o MessageType.serverToClient.code (be64 time ++ (sender ++ text)) =
      some (.serverToClient time sender text) := by
  have hlogin : MessageType.serverToClient.code ≠ MessageType.loginResponse.code := by decide
  have hadd : MessageType.serverToClient.code ≠ MessageType.userAdd.code := by decide
  have hremove : MessageType.serverToClient.code ≠ MessageType.userRemove.code := by decide
  have hboth : (be64 time ++ sender).length = 40 := by simp [hsender, netNameLenPlus]
  rw [decodeBody, if_neg fun h => hlogin h.1, if_neg fun h => hadd h.1,
    if_neg fun h => hremove h.1, if_pos ⟨rfl, by simp [hsender, netNameLenPlus]; omega⟩,
    readU64_be64, List.drop_left' (length_be64 _), List.take_left' hsender, ← List.append_assoc,
    List.drop_left' hboth]

/-- A whole message is decoded by its body. -/
theorem decode_wire {o : Order} {hdr : MessageHeader} {body : List UInt8}
    (hlen : body.length = hdr.length.toNat) :
    decode o (hdr.wire ++ body) = decodeBody o hdr.type body := by
  have hheader : MessageHeader.ofWire (hdr.wire ++ body) = hdr := MessageHeader.ofWire_wire hdr
  have hbody : ((hdr.wire ++ body).drop headerSize).take hdr.length.toNat = body := by
    rw [List.drop_left' (MessageHeader.length_wire hdr), List.take_of_length_le hlen.le]
  simp only [decode, hheader, hbody, hlen, if_true]

end LinuxChat
