import LinuxChat.Lib.ByteOrder
import LinuxChat.Model.Defines

/-!
# util.c

`nameBytesValidate`, and the 64-bit conversions `ntoh64u` and `hton64u` on
the bytes of a `Uint64Bytes`. Nothing in the server calls them: they do again
what `f_Name_has_forbidden_char`, `ntohll` and `htonll` do.
-/

namespace LinuxChat

open ByteOrder

/-! ## Names -/

/-- The loop of `nameBytesValidate` from index `i` on; `none` for a read behind the end of the
array. -/
def nameBytesValidateFrom (s : List UInt8) (n i : Nat) : Option Nat :=
  if i < n then
    match s[i]? with
    | none => none
    | some c =>
        if c < 33 then some i
        else if c = 34 ∨ c = 39 ∨ c = 96 then some i
        else if 127 ≤ c then some i
        else nameBytesValidateFrom s n (i + 1)
  else some i
termination_by n - i

/-- `nameBytesValidate`. -/
def nameBytesValidate (input : List UInt8) (n : Nat) : Option Nat :=
  nameBytesValidateFrom input n 0

/-! ## Byte order -/

/-- One pass of the loop of `ntoh64u`. -/
def ntoh64uPass (host64u : UInt64) (byte : UInt8) : UInt64 := (host64u <<< 8) ||| byte.toUInt64

/-- `ntoh64u`: over the memory bytes of its argument. -/
def ntoh64u (o : Order) (network64u : UInt64) : UInt64 :=
  (o.store 8 network64u.toNat).foldl ntoh64uPass 0

/-- `(host64u & ((uint64_t)0xffU << (i*8U))) >> (i*8U)`, as it is stored into a byte. -/
def hton64uByte (host64u : UInt64) (i : Nat) : UInt8 :=
  ((host64u &&& (0xff <<< UInt64.ofNat (i * 8))) >>> UInt64.ofNat (i * 8)).toUInt8

/-- One pass of the loop of `hton64u`, on the pointer `p` and `conv.bytes`. -/
def hton64uPass (host64u : UInt64) (s : Nat × List UInt8) (i : Nat) : Nat × List UInt8 :=
  (s.1 - 1, s.2.set (s.1 - 1) (hton64uByte host64u i))

/-- `hton64u`: the bytes are stored from the end of `conv.bytes`, and read as one word. -/
def hton64u (o : Order) (host64u : UInt64) : UInt64 :=
  UInt64.ofNat (o.load ((List.range 8).foldl (hton64uPass host64u) (8, List.replicate 8 0)).2)

end LinuxChat
