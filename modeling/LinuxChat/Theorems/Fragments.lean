import LinuxChat.Logic.Passes

/-!
# Fragmentation

Header and body are asked for with one call each, and a short return is not
completed. The loop handles one triple for each frame exactly when the
transport splits neither a header nor a body: whatever it takes less than a
frame has, it must find again somewhere else.
-/

namespace LinuxChat

open CMem ByteStream

namespace WireFrame

/-- A login request that is well formed, or a text of 1 to 511 bytes. -/
def Valid (g : WireFrame) : Prop :=
  g.frame.IsLogin ∨ g.frame.IsText ∧ g.body.length < netTextLen

instance (g : WireFrame) : Decidable g.Valid := inferInstanceAs (Decidable (_ ∨ _ ∧ _ < _))

/-- The triple of a frame that is read as it was sent. -/
def triple (g : WireFrame) : Triple := (g.frame.code, g.body.length, g.body)

@[simp] theorem announced_frame (g : WireFrame) : g.frame.announced = g.body.length :=
  g.toNat_length

@[simp] theorem data_frame (g : WireFrame) : g.frame.data = g.body := by
  have hresult : g.frame.result = some (g.body.take g.frame.announced) := rfl
  rw [Frame.data, hresult, announced_frame, List.take_length]
  rfl

/-- The codes of valid frames. -/
theorem Valid.code {g : WireFrame} (hg : g.Valid) :
    g.frame.code = .receivedLogin ∨ g.frame.code = .receivedMessage ∨
      g.frame.code = .receivedServerCommand := by
  rcases hg with hlogin | ⟨htext, -⟩
  · exact .inl (Frame.code_eq_receivedLogin.mpr hlogin)
  · by_cases hcmd : g.frame.IsCommand
    · exact .inr (.inr (Frame.code_eq_receivedServerCommand.mpr hcmd))
    · exact .inr (.inl (Frame.code_eq_receivedMessage.mpr ⟨htext, hcmd⟩))

end WireFrame

/-- These codes are given to frames whose body is read. -/
theorem readsBody_of_code {f : Frame} (h : f.code = .receivedLogin ∨ f.code = .receivedMessage ∨
    f.code = .receivedServerCommand) : readsBody f.header = true := by
  rcases h with h | h | h
  · exact (Frame.code_receivedLogin h).1
  · exact (Frame.code_receivedMessage h).1
  · exact (Frame.code_eq_receivedServerCommand.mp h).1.readsBody

/-- What the switch gets for a valid frame that is read as it was sent. -/
theorem tripleOf_frame {g : WireFrame} (hg : g.Valid) :
    tripleOf g.frame.code g.frame.msg = g.triple := by
  have hbody : readsBody g.frame.header = true := readsBody_of_code hg.code
  have hlen : g.frame.data.length ≤ bodySize := by
    rw [WireFrame.data_frame]
    rcases hg with ⟨-, -, -, -, h37⟩ | ⟨-, h512⟩
    · rw [WireFrame.data_frame] at h37
      unfold bodySize
      omega
    · unfold netTextLen at h512
      unfold bodySize
      omega
  have hbytes := Frame.bytes_msg hbody hlen
  have hannounced : g.frame.msg.header.length.toNat = g.body.length := g.toNat_length
  rw [tripleOf, hannounced, hbytes, WireFrame.data_frame, List.take_left' rfl]
  rfl

/-- The calls from number `c` on may each take the header or body they are for; a call takes
at least one byte. -/
def Unsplit (chunk : Nat → Nat) : List WireFrame → Nat → Prop
  | [], _ => True
  | g :: gs, c => headerSize ≤ max 1 (chunk c) ∧ g.body.length ≤ max 1 (chunk (c + 1)) ∧
      Unsplit chunk gs (c + 2)

/-- An unsplit frame is the frame the pass sees. -/
theorem drawn_of_unsplit {t : Transport} {g : WireFrame} {rest : List UInt8} (hg : g.Valid)
    (hstream : t.stream = g.bytes ++ rest) (hheader : headerSize ≤ max 1 (t.chunk t.calls))
    (hbody : g.body.length ≤ max 1 (t.chunk (t.calls + 1))) :
    drawn t = g.frame ∧ (afterPass t).stream = rest ∧ (afterPass t).chunk = t.chunk ∧
      (afterPass t).calls = t.calls + 2 := by
  have hsplit : t.stream = g.header.wire ++ (g.body ++ rest) := by
    rw [hstream, WireFrame.bytes, List.append_assoc]
  have hwire : g.header.wire.length ≤ max 1 (t.chunk t.calls) := hheader
  obtain ⟨htaken, hafter⟩ := Transport.taken_of_chunk hwire hsplit
  rw [MessageHeader.length_wire] at htaken hafter
  have hdrawn : drawnHeader t = g.header := by
    rw [drawnHeader, htaken, MessageHeader.ofWire_wire]
  obtain ⟨hdata, hrest⟩ := Transport.taken_of_chunk (t := t.after headerSize) hbody hafter
  have hread : readsBody g.header = true := readsBody_of_code (f := g.frame) hg.code
  have hpass : afterPass t = (t.after headerSize).after g.body.length := by
    rw [afterPass, hdrawn, if_pos hread, WireFrame.toNat_length]
  refine ⟨?_, by rw [hpass, hrest], by rw [hpass]; rfl, by rw [hpass]; rfl⟩
  rw [drawn, hdrawn, WireFrame.toNat_length, hdata]
  rfl

/-- Unsplit frames are handled one by one. -/
theorem handled_of_unsplit {gs : List WireFrame} (hgs : ∀ g ∈ gs, g.Valid) {t : Transport}
    {fuel : Nat} (hstream : t.stream = wire gs) (hfuel : t.stream.length < fuel)
    (h : Unsplit t.chunk gs t.calls) :
    handled Transport.recv fuel t = gs.map WireFrame.triple := by
  induction gs generalizing t fuel with
  | nil => exact handled_nil hstream fuel
  | cons g gs ih =>
      have hg := hgs g List.mem_cons_self
      obtain ⟨hheader, hbody, hnext⟩ := h
      have hfirst : t.stream = g.bytes ++ wire gs := hstream
      obtain ⟨hdrawn, hrest, hchunk, hcalls⟩ := drawn_of_unsplit hg hfirst hheader hbody
      have hne : t.stream ≠ [] := by
        rw [hstream]
        simp [wire, WireFrame.bytes, MessageHeader.wire]
      obtain ⟨fuel, rfl⟩ : ∃ k, fuel = k + 1 := ⟨fuel - 1, by omega⟩
      have hlt := length_afterPass_lt hne
      rw [handled_succ hne, hdrawn, tripleOf_frame hg, List.map_cons]
      congr 1
      exact ih (fun g' hg' => hgs g' (List.mem_cons_of_mem g hg')) hrest (by omega)
        (by rw [hchunk, hcalls]; exact hnext)

/-- Handling one triple for each frame takes no more bytes than the frames have, and as many
only if nothing was split. -/
theorem unsplit_of_handled {gs : List WireFrame} (hgs : ∀ g ∈ gs, g.Valid) {t : Transport}
    {fuel : Nat} (hfuel : t.stream.length < fuel)
    (h : handled Transport.recv fuel t = gs.map WireFrame.triple) :
    t.stream.length ≤ (wire gs).length ∧
      (t.stream.length = (wire gs).length → Unsplit t.chunk gs t.calls) := by
  induction gs generalizing t fuel with
  | nil =>
      have hnil : t.stream = [] := by
        by_contra hne
        obtain ⟨fuel, rfl⟩ : ∃ k, fuel = k + 1 := ⟨fuel - 1, by omega⟩
        rw [handled_succ hne] at h
        cases h
      exact ⟨by simp [hnil], fun _ => trivial⟩
  | cons g gs ih =>
      have hne : t.stream ≠ [] := by
        intro hnil
        rw [handled_nil hnil] at h
        cases h
      obtain ⟨fuel, rfl⟩ : ∃ k, fuel = k + 1 := ⟨fuel - 1, by omega⟩
      rw [handled_succ hne, List.map_cons, List.cons.injEq, tripleOf, WireFrame.triple,
        Prod.mk.injEq, Prod.mk.injEq] at h
      obtain ⟨⟨hcode, hannounced, -⟩, hrest⟩ := h
      have hread : readsBody (drawnHeader t) = true := by
        refine readsBody_of_code (f := drawn t) ?_
        rw [hcode]
        exact (hgs g List.mem_cons_self).code
      replace hannounced : (drawnHeader t).length.toNat = g.body.length := hannounced
      have hpass : afterPass t = (t.after headerSize).after g.body.length := by
        rw [afterPass, if_pos hread, hannounced]
      have hlt := length_afterPass_lt hne
      obtain ⟨hle, heq⟩ := ih (fun g' hg' => hgs g' (List.mem_cons_of_mem g hg')) (by omega) hrest
      -- the pass takes at most the bytes of its frame, in two calls
      have hheader := t.length_taken_add headerSize
      have hbody := (t.after headerSize).length_taken_add g.body.length
      have hheaderLe := t.length_taken_le headerSize
      have hbodyLe := (t.after headerSize).length_taken_le g.body.length
      have hwire : (wire (g :: gs)).length = headerSize + g.body.length + (wire gs).length := by
        simp [wire]
      rw [hpass] at hle heq
      refine ⟨by omega, fun htotal => ⟨?_, ?_, heq (by omega)⟩⟩
      · exact Transport.chunk_of_length_taken (t := t) (by omega)
      · exact Transport.chunk_of_length_taken (t := t.after headerSize) (by omega)

/-- What the loop handles of a stream, in at most one pass a byte. -/
def handledAll (t : Transport) : List Triple :=
  handled Transport.recv (t.stream.length + 1) t

/-- **The loop comes to its end, with one triple for each frame exactly when nothing is split.** -/
theorem handledAll_iff {gs : List WireFrame} (hgs : ∀ g ∈ gs, g.Valid) (chunk : Nat → Nat) :
    loopState Transport.recv ((wire gs).length + 1) ⟨wire gs, chunk, 0⟩ = none ∧
      (handledAll ⟨wire gs, chunk, 0⟩ = gs.map WireFrame.triple ↔ Unsplit chunk gs 0) := by
  refine ⟨loopState_eq_none (Nat.lt_succ_self _), ?_⟩
  constructor
  · intro h
    exact (unsplit_of_handled hgs (Nat.lt_succ_self _) h).2 rfl
  · intro h
    exact handled_of_unsplit hgs rfl (Nat.lt_succ_self _) h

/-- A login and a text, in whole calls. -/
theorem handledAll_whole :
    let gs : List WireFrame := [⟨0, be32 0x0badf00d ++ [0] ++ lit "bob", by decide⟩,
      ⟨2, lit "hello", by decide⟩]
    handledAll ⟨wire gs, fun _ => 512, 0⟩ = gs.map WireFrame.triple := by
  intro gs
  exact (handledAll_iff (by decide) _).2.mpr ⟨by decide, by decide, by decide, by decide, trivial⟩

/-- The text `hi` comes as five calls of one byte: the header is taken apart into four frames
of other kinds, and the same bytes mean something else than in one piece. -/
theorem handledAll_split :
    let g : WireFrame := ⟨2, lit "hi", by decide⟩
    g.Valid ∧ handledAll ⟨wire [g], fun _ => 512, 0⟩ = [g.triple] ∧
      handledAll ⟨wire [g], fun _ => 1, 0⟩ =
        [(.invalidLength, 0, []), (.invalidLength, 0, []), (.invalidLength, 0, []),
          (.invalidLength, 0, []), (.invalidLength, 0, [])] := by
  refine ⟨by decide +kernel, by decide +kernel, by decide +kernel⟩

end LinuxChat
