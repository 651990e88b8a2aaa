import LinuxChat.Lib.CMem

/-!
# Constants, integer conversions and the configuration

The sizes of `core/defines.h`, the conversions C inserts where a signed
`int` is passed as `size_t` or `u16`, and what `application.c` knows after
its command line is read.
-/

namespace LinuxChat

open CMem

/-- `NET_NAME_LEN`. -/
def netNameLen : Nat := 31

/-- `NET_NAME_LEN_PLUS`. -/
def netNameLenPlus : Nat := 32

/-- `NET_TEXT_LEN`. -/
def netTextLen : Nat := 512

/-- The bytes of a string literal (ASCII). -/
def lit (s : String) : List UInt8 := s.toList.map fun c => UInt8.ofNat c.toNat

/-- An `int` passed as `size_t`. -/
def sizeT (i : Int) : Nat := (i % 0x10000000000000000).toNat

/-- An `int` passed as `u16`. -/
def toU16 (i : Int) : Nat := (i % 0x10000).toNat

theorem toU16_of_lt {n : Nat} (h : n < 0x10000) : toU16 n = n := by
  unfold toU16
  omega

/-- A `char` read as the signed number it is on x86 Linux. -/
def signedChar (c : UInt8) : Int := if c < 128 then c.toNat else (c.toNat : Int) - 256

/-- The byte `b` of a 32-bit word in network byte order. -/
def be32 (x : Nat) : List UInt8 :=
  [UInt8.ofNat (x / 0x1000000), UInt8.ofNat (x / 0x10000), UInt8.ofNat (x / 0x100), UInt8.ofNat x]

/-- A 64-bit word in network byte order: the memory bytes of `htonll(x)`. -/
def be64 (x : UInt64) : List UInt8 :=
  [x >>> 56, x >>> 48, x >>> 40, x >>> 32, x >>> 24, x >>> 16, x >>> 8, x].map UInt64.toUInt8

@[simp] theorem length_be32 (x : Nat) : (be32 x).length = 4 := rfl

@[simp] theorem length_be64 (x : UInt64) : (be64 x).length = 8 := rfl

/-! ## The configuration -/

/-- A name that passed the check of `-a` or `-n`: a C string of 1 to 31 bytes. -/
structure NameArg where
  bytes : List UInt8
  nulFree : 0 ∉ bytes
  pos : 0 < bytes.length
  lt : bytes.length < netNameLenPlus
  deriving DecidableEq

/-- `server_name` and `admin_name`. -/
structure Config where
  serverName : NameArg
  adminName : NameArg
  deriving DecidableEq

/-- The names a server without options runs under. -/
def Config.default : Config where
  serverName := ⟨lit "Server_04", by decide, by decide, by decide⟩
  adminName := ⟨lit "Admin", by decide, by decide, by decide⟩

end LinuxChat
