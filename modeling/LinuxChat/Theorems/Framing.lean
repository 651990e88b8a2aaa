import LinuxChat.Logic.Passes

/-!
# Framing

On a connection that delivers what is asked for, a pass consumes the body of
a frame in the two branches that read one. The default branch of
`network_Receive` leaves the body in the stream, where the next pass takes it
for a header.
-/

namespace LinuxChat

open CMem ByteStream

/-- A type `network_Receive` reads a body for. -/
def WireFrame.Known (g : WireFrame) : Prop :=
  g.type = MessageType.loginRequest.code ∨ g.type = MessageType.clientToServer.code

/-- The pass that starts at `t` finds the header of `g` and consumes 3 bytes and its body. -/
def ReadsFrame (g : WireFrame) (t : Transport) : Prop :=
  checkForMessage Transport.recv t = (3, g.header, t.after headerSize) ∧
    (receive Transport.recv t).2.stream.length + (headerSize + g.body.length) = t.stream.length

/-- Pass `i` of the loop reads frame `i`. -/
def Aligned (gs : List WireFrame) (t : Transport) : Prop :=
  ∀ i (hi : i < gs.length), ∃ t', loopState Transport.recv i t = some t' ∧ ReadsFrame gs[i] t'

/-- The connection delivers what is asked for. -/
def Whole (t : Transport) : Prop := ∀ i, 0x10000 ≤ t.chunk i

theorem Whole.after {t : Transport} (h : Whole t) (want : Nat) : Whole (t.after want) := h

theorem Whole.taken {t : Transport} (h : Whole t) {data rest : List UInt8}
    (hdata : data.length < 0x10000) (hstream : t.stream = data ++ rest) :
    t.taken data.length = data ∧ (t.after data.length).stream = rest := by
  refine Transport.taken_of_chunk ?_ hstream
  have := h t.calls
  omega

/-- The header of the frame that comes next is found whole. -/
theorem Whole.header {t : Transport} (h : Whole t) {g : WireFrame} {rest : List UInt8}
    (hstream : t.stream = g.bytes ++ rest) :
    (t.taken headerSize).length = headerSize ∧ drawnHeader t = g.header ∧
      (t.after headerSize).stream = g.body ++ rest := by
  have hsplit : t.stream = g.header.wire ++ (g.body ++ rest) := by
    rw [hstream, WireFrame.bytes, List.append_assoc]
  obtain ⟨htaken, hafter⟩ := h.taken (by simp [headerSize]) hsplit
  rw [MessageHeader.length_wire] at htaken hafter
  refine ⟨by rw [htaken, MessageHeader.length_wire], ?_, hafter⟩
  rw [drawnHeader, htaken, MessageHeader.ofWire_wire]

theorem readsBody_header (g : WireFrame) :
    readsBody g.header = true ↔ g.body ≠ [] ∧ g.Known := by
  rw [Frame.readsBody_iff, WireFrame.toNat_length, Ne, List.length_eq_zero_iff]
  rfl

/-- A frame of a known type, or without a body, is read to its end. -/
theorem Whole.afterPass {t : Transport} (h : Whole t) {g : WireFrame} {rest : List UInt8}
    (hstream : t.stream = g.bytes ++ rest) (hg : g.Known ∨ g.body = []) :
    (afterPass t).stream = rest ∧ Whole (afterPass t) := by
  obtain ⟨-, hheader, hafter⟩ := h.header hstream
  unfold LinuxChat.afterPass
  rw [hheader]
  by_cases hbody : g.body = []
  · rw [if_neg fun hr => ((readsBody_header g).mp hr).1 hbody]
    exact ⟨by rw [hafter, hbody, List.nil_append], h.after _⟩
  · rw [if_pos ((readsBody_header g).mpr ⟨hbody, hg.resolve_right hbody⟩), WireFrame.toNat_length]
    exact ⟨((h.after headerSize).taken g.lt hafter).2, (h.after _).after _⟩

theorem bytes_append_ne_nil (g : WireFrame) (rest : List UInt8) : g.bytes ++ rest ≠ [] := by
  simp [WireFrame.bytes, MessageHeader.wire]

theorem Whole.readsFrame {t : Transport} (h : Whole t) {g : WireFrame} {rest : List UInt8}
    (hstream : t.stream = g.bytes ++ rest) (hg : g.Known ∨ g.body = []) : ReadsFrame g t := by
  have hne : t.stream ≠ [] := by rw [hstream]; exact bytes_append_ne_nil g rest
  obtain ⟨hlen, hheader, -⟩ := h.header hstream
  refine ⟨by rw [checkForMessage_recv, hlen, hheader]; rfl, ?_⟩
  rw [receive_recv hne, (h.afterPass hstream hg).1, hstream, List.length_append,
    WireFrame.length_bytes, Nat.add_comm]

/-- Frames that are read to their end keep the loop aligned. -/
theorem Whole.aligned {gs : List WireFrame} (hgs : ∀ g ∈ gs, g.Known ∨ g.body = [])
    {t : Transport} (h : Whole t) (hstream : t.stream = wire gs) : Aligned gs t := by
  induction gs generalizing t with
  | nil => exact fun i hi => absurd hi (Nat.not_lt_zero i)
  | cons g gs ih =>
      have hg := hgs g List.mem_cons_self
      have hfirst : t.stream = g.bytes ++ wire gs := hstream
      obtain ⟨hrest, hwhole⟩ := h.afterPass hfirst hg
      have hne : t.stream ≠ [] := by rw [hstream]; exact bytes_append_ne_nil g _
      intro i hi
      cases i with
      | zero => exact ⟨t, rfl, h.readsFrame hfirst hg⟩
      | succ i =>
          rw [loopState_succ hne]
          exact ih (fun g' hg' => hgs g' (List.mem_cons_of_mem g hg')) hwhole hrest i
            (Nat.lt_of_succ_lt_succ hi)

/-- A frame that is read to its end has a known type or no body. -/
theorem known_of_readsFrame {g : WireFrame} {t : Transport} (h : ReadsFrame g t) :
    g.Known ∨ g.body = [] := by
  obtain ⟨hcheck, hcount⟩ := h
  rw [checkForMessage_recv, Prod.mk.injEq, Prod.mk.injEq] at hcheck
  obtain ⟨hlen, hheader, -⟩ := hcheck
  replace hlen : (t.taken headerSize).length = 3 := by exact_mod_cast hlen
  have hne : t.stream ≠ [] := by
    intro hnil
    simp [Transport.taken, hnil] at hlen
  rw [receive_recv hne] at hcount
  have htaken := t.length_taken_add headerSize
  by_cases hread : readsBody g.header = true
  · exact .inl ((readsBody_header g).mp hread).2
  · right
    -- Nothing is read behind the header, so the whole frame is its header.
    have hafter : afterPass t = t.after headerSize := by
      rw [afterPass, hheader, if_neg hread]
    simp only [hafter] at hcount
    rw [hlen] at htaken
    unfold headerSize at hcount htaken
    exact List.length_eq_zero_iff.mp (by omega)

/-- **Framing stays aligned exactly for frames whose body is read.** On a connection that
delivers what is asked for, every pass finds the header of its frame and consumes the whole
frame if and only if every frame has a known type or no body. -/
theorem aligned_iff (gs : List WireFrame) :
    Aligned gs (Transport.whole (wire gs)) ↔ ∀ g ∈ gs, g.Known ∨ g.body = [] := by
  constructor
  · intro h g hg
    obtain ⟨i, hi, rfl⟩ := List.getElem_of_mem hg
    obtain ⟨t, -, hreads⟩ := h i hi
    exact known_of_readsFrame hreads
  · intro hgs
    exact Whole.aligned hgs (t := Transport.whole (wire gs)) (fun _ => Nat.le_refl _) rfl

/-- A frame of type 9 with the body `00 00 00` in front of a text: the second pass takes the
body for a header. -/
theorem not_aligned_unknown :
    let gs : List WireFrame := [⟨9, [0, 0, 0], by decide⟩, ⟨2, lit "hi", by decide⟩]
    ¬ Aligned gs (Transport.whole (wire gs)) ∧
      (loopState Transport.recv 1 (Transport.whole (wire gs))).map
        (fun t => (checkForMessage Transport.recv t).2.1) = some ⟨0, 0⟩ := by
  intro gs
  refine ⟨?_, by decide +kernel⟩
  intro h
  obtain ⟨t, -, hreads⟩ := h 0 (by decide)
  exact absurd (known_of_readsFrame hreads) (by unfold WireFrame.Known; decide)

end LinuxChat
