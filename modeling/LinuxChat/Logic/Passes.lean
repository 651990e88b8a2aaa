import LinuxChat.Logic.FrameSpec
import LinuxChat.Model.Wire

/-!
# One pass over a connection

What a pass takes from a connection that splits the stream as it likes: the
frame it sees (`drawn`), where it leaves the stream (`afterPass`), and that a
loop over a finite stream comes to its end (`loopState_eq_none`).
-/

namespace LinuxChat

open CMem ByteStream

/-- The header a pass finds: the bytes of the first call over zeros. -/
def drawnHeader (t : Transport) : MessageHeader := MessageHeader.ofWire (t.taken headerSize)

/-- The frame a pass sees. -/
def drawn (t : Transport) : Frame where
  header := drawnHeader t
  body := some ((t.after headerSize).taken (drawnHeader t).length.toNat)

/-- The connection after a pass. -/
def afterPass (t : Transport) : Transport :=
  if readsBody (drawnHeader t) then (t.after headerSize).after (drawnHeader t).length.toNat
  else t.after headerSize

theorem checkForMessage_recv (t : Transport) : checkForMessage Transport.recv t =
    (((t.taken headerSize).length : Int), drawnHeader t, t.after headerSize) := by
  simp only [checkForMessage, Transport.ask_recv, returned, stored, drawnHeader]

/-- At the end of the stream the loop is left. -/
theorem receive_nil {t : Transport} (h : t.stream = []) :
    receive Transport.recv t = (.closed 0, t.after headerSize) := by
  have hnil : t.taken headerSize = [] := by simp [Transport.taken, h]
  simp [receive, checkForMessage_recv, hnil]

/-- Before it, a pass handles a frame. -/
theorem receive_recv {t : Transport} (h : t.stream ≠ []) :
    receive Transport.recv t =
      (.frame (t.taken headerSize).length (drawn t).code (drawn t).msg (drawn t).count,
        afterPass t) := by
  have hpos : 0 < (t.taken headerSize).length :=
    List.length_pos_of_ne_nil (Transport.taken_ne_nil (by decide) h)
  have hresult : (drawn t).result = some ((t.after headerSize).taken (drawn t).announced) := by
    simp [Frame.result, drawn, Frame.announced, List.take_of_length_le,
      Transport.length_taken_le]
  have hreceive := Frame.receive_eq (s := t) (f := drawn t)
    (by rw [Transport.ask_recv]; rfl)
    (by rw [Transport.ask_recv]; exact Int.natCast_pos.mpr hpos)
    (by rw [Transport.ask_recv, Transport.ask_recv, hresult])
  rw [hreceive, Transport.ask_recv, Transport.ask_recv]
  rfl

theorem loopState_succ {t : Transport} (h : t.stream ≠ []) (i : Nat) :
    loopState Transport.recv (i + 1) t = loopState Transport.recv i (afterPass t) := by
  simp only [loopState, receive_recv h]

theorem handled_succ {t : Transport} (h : t.stream ≠ []) (fuel : Nat) :
    handled Transport.recv (fuel + 1) t =
      tripleOf (drawn t).code (drawn t).msg :: handled Transport.recv fuel (afterPass t) := by
  simp only [handled, receive_recv h]

theorem handled_nil {t : Transport} (h : t.stream = []) (fuel : Nat) :
    handled Transport.recv fuel t = [] := by
  cases fuel with
  | zero => rfl
  | succ fuel => simp only [handled, receive_nil h]

/-- A pass takes at least one byte. -/
theorem length_afterPass_lt {t : Transport} (h : t.stream ≠ []) :
    (afterPass t).stream.length < t.stream.length := by
  have hpos : 0 < (t.taken headerSize).length :=
    List.length_pos_of_ne_nil (Transport.taken_ne_nil (by decide) h)
  have hheader := t.length_taken_add headerSize
  have hbody := (t.after headerSize).length_taken_add (drawnHeader t).length.toNat
  unfold afterPass
  split <;> omega

/-- The loop is left after at most one pass a byte. -/
theorem loopState_eq_none {t : Transport} {fuel : Nat} (h : t.stream.length < fuel) :
    loopState Transport.recv fuel t = none := by
  induction fuel generalizing t with
  | zero => exact absurd h (Nat.not_lt_zero _)
  -- Each pass shortens the stream, so the fuel outlasts it.
  | succ fuel ih =>
      by_cases hnil : t.stream = []
      · simp only [loopState, receive_nil hnil]
      · rw [loopState_succ hnil]
        exact ih (by have := length_afterPass_lt hnil; omega)

end LinuxChat
