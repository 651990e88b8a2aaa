import LinuxChat.Lib.ByteStream
import LinuxChat.Model.Frames

/-!
# A connection and the receive loop

The bytes a peer sends, and the loop of `client_Thread` on one connection as
far as it concerns what is received: where each pass starts, and what the
switch gets in it. The loop ends when `recv` returns 0 or -1.
-/

namespace LinuxChat

open ByteStream

/-- A frame as a peer sends it: a type byte and a body whose length the header can hold. -/
structure WireFrame where
  type : UInt8
  body : List UInt8
  lt : body.length < 0x10000
  deriving DecidableEq

namespace WireFrame

def header (g : WireFrame) : MessageHeader := ⟨g.type, UInt16.ofNat g.body.length⟩

/-- The bytes of a frame: its header, then its body. -/
def bytes (g : WireFrame) : List UInt8 := g.header.wire ++ g.body

/-- The frame as a pass gets it that reads all of it. -/
def frame (g : WireFrame) : Frame := ⟨g.header, some g.body⟩

@[simp] theorem toNat_length (g : WireFrame) : g.header.length.toNat = g.body.length := by
  rw [header, UInt16.toNat_ofNat', Nat.mod_eq_of_lt g.lt]

@[simp] theorem length_bytes (g : WireFrame) : g.bytes.length = headerSize + g.body.length := by
  simp [bytes]

end WireFrame

/-- The stream of a sequence of frames. -/
def wire (gs : List WireFrame) : List UInt8 := gs.flatMap WireFrame.bytes

/-- What the switch of one pass gets: validation code, announced length and body. -/
abbrev Triple := NetworkValidationCode × Nat × List UInt8

/-- The triple of a message. -/
def tripleOf (code : NetworkValidationCode) (m : CombinedMessage) : Triple :=
  (code, m.header.length.toNat, m.body.bytes.take m.header.length.toNat)

variable {σ : Type}

/-- The supply at the start of pass `i`; `none` once the loop has been left. -/
def loopState (src : Source σ) : Nat → σ → Option σ
  | 0, s => some s
  | i + 1, s =>
      match receive src s with
      | (.closed _, _) => none
      | (.frame .., s') => loopState src i s'

/-- What the switch gets in the first `fuel` passes. -/
def handled (src : Source σ) : Nat → σ → List Triple
  | 0, _ => []
  | fuel + 1, s =>
      match receive src s with
      | (.closed _, _) => []
      | (.frame _ code m _, s') => tripleOf code m :: handled src fuel s'

end LinuxChat
