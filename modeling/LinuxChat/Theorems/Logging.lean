import LinuxChat.Model.Logger

/-!
# Each log message is written exactly once

What is written and what is pending is what was output, as long as every
`log_shutdown` finds its own line flushed by `output_Message`: the write of
`log_shutdown` leaves the count as it is, so what it writes stays pending and
is written again.
-/

namespace LinuxChat

open CMem Trace

variable {lg lg' : Logger} {h : History LogAct LogOut}

/-- The levels that are buffered, as logger.h lists them for each buffer level. -/
def bufferedLevels (bufferLevel : Fin 5) : List LogLevel :=
  [LogLevel.trace, .debug, .info, .warn].take bufferLevel.val

/-- The call may leave nothing pending: it outputs a level that is not buffered, or shuts
down. -/
def MustFlush (lg : Logger) : LogAct → Prop
  | .output level _ _ => level ∉ bufferedLevels lg.logLevelForBuffer
  | .setBufferLevel newLevel _ _ => ¬ (newLevel ≤ 4 ∧ 0 ≤ newLevel)
  | .shutdown .. => True

/-- Each text is written once or pending, in order; the slot is one of the buffer's; and
nothing is pending where nothing may be. -/
def exactlyOnce : Guard Logger LogAct LogOut := fun h lg a =>
  ∀ lg' o, logStep lg a = some (lg', o) →
    lg'.writtenTexts ++ lg'.pendingTexts = outputTexts (h ++ [(a, o)]) ∧
      (∀ e, o = some e → e.1 < maxBufferedMessages) ∧ (MustFlush lg a → lg'.pendingTexts = [])

/-- A `log_shutdown` finds its own line flushed: nothing is buffered, or the line is the one
that fills the buffer. -/
def flushedShutdown : Guard Logger LogAct LogOut := fun _ lg a =>
  match a with
  | .shutdown .. => lg.logLevelForBuffer.val = 0 ∨ lg.buffer.count = maxBufferedMessages - 2
  | _ => True

instance (h : History LogAct LogOut) (lg : Logger) : (a : LogAct) →
    Decidable (flushedShutdown h lg a)
  | .shutdown .. => inferInstanceAs (Decidable (_ ∨ _))
  | .output .. | .setBufferLevel .. => isTrue trivial

/-! ## The buffer -/

theorem pending_push {b : MessageBuffer} (hcount : b.count < maxBufferedMessages) (text : LogText)
    (thread : Nat) :
    (b.push text.bytes thread).pending = b.pending ++ [⟨text.bytes, thread⟩] := by
  have htext : (cstr text.bytes).take (maxMessageSize - 1) = text.bytes := by
    rw [cstr_eq_self text.nulFree, List.take_of_length_le (Nat.le_sub_one_of_lt text.lt)]
  have hlt : b.count < b.messages.length := by rw [b.length_messages]; exact hcount
  simp only [MessageBuffer.pending, MessageBuffer.push, htext]
  rw [List.take_add_one, List.take_set_of_le (le_refl _), List.getElem?_set_self hlt]
  rfl

/-! ## Writing -/

/-- What writing one message does. -/
theorem writeMessage_spec (lg : Logger) (m : MessagePlusThread) :
    (lg.writeMessage m).writtenTexts = lg.writtenTexts ++ [m.text] ∧
      (lg.writeMessage m).buffer = lg.buffer ∧
      (lg.writeMessage m).logLevelForBuffer = lg.logLevelForBuffer := by
  refine ⟨?_, rfl, rfl⟩
  simp only [Logger.writeMessage, Logger.writtenTexts, List.filterMap_append]
  split <;> simp

theorem foldl_writeMessage (ms : List MessagePlusThread) (lg : Logger) :
    (ms.foldl Logger.writeMessage lg).writtenTexts = lg.writtenTexts ++ ms.map (·.text) ∧
      (ms.foldl Logger.writeMessage lg).buffer = lg.buffer ∧
      (ms.foldl Logger.writeMessage lg).logLevelForBuffer = lg.logLevelForBuffer := by
  induction ms generalizing lg with
  | nil => simp
  | cons m ms ih =>
      obtain ⟨hwritten, hbuffer, hlevel⟩ := ih (lg.writeMessage m)
      obtain ⟨hwritten₁, hbuffer₁, hlevel₁⟩ := writeMessage_spec lg m
      refine ⟨?_, hbuffer.trans hbuffer₁, hlevel.trans hlevel₁⟩
      rw [List.foldl_cons, hwritten, hwritten₁, List.map_cons, List.append_assoc,
        List.singleton_append]

/-- `WriteMessagesToFile` writes what is pending and leaves it pending. -/
theorem writeMessagesToFile_spec (lg : Logger) :
    lg.writeMessagesToFile.writtenTexts = lg.writtenTexts ++ lg.pendingTexts ∧
      lg.writeMessagesToFile.buffer = lg.buffer ∧
      lg.writeMessagesToFile.logLevelForBuffer = lg.logLevelForBuffer :=
  foldl_writeMessage lg.buffer.pending lg

/-! ## Output -/

/-- `output_Message` writes out the buffer. -/
def Flushes (lg : Logger) (level : LogLevel) : Prop :=
  maxBufferedMessages - 1 ≤ lg.buffer.count + 1 ∨ level.toNat < 6 - lg.logLevelForBuffer.val

instance (lg : Logger) (level : LogLevel) : Decidable (Flushes lg level) :=
  inferInstanceAs (Decidable (_ ∨ _))

/-- Exactly the levels that are not buffered flush whatever the buffer holds. -/
theorem notMem_bufferedLevels {bufferLevel : Fin 5} {level : LogLevel} :
    level ∉ bufferedLevels bufferLevel ↔ level.toNat < 6 - bufferLevel.val := by
  revert bufferLevel
  cases level <;> decide

/-- The logger behind the console output and the store of `output_Message`. -/
theorem outputMessage_eq (lg : Logger) (level : LogLevel) (message : List UInt8) (thread : Nat) :
    ∃ lg₁ : Logger, lg₁.writes = lg.writes ∧ lg₁.buffer = lg.buffer.push message thread ∧
      lg₁.logLevelForBuffer = lg.logLevelForBuffer ∧
      lg.outputMessage level message thread =
        if Flushes lg level then
          { lg₁.writeMessagesToFile with
            buffer := { lg₁.writeMessagesToFile.buffer with count := 0 } }
        else lg₁ := by
  by_cases hconsole : level.toNat ≤ lg.internalLevel.toNat
  · refine ⟨{ lg with
      console := lg.console ++ [message], buffer := lg.buffer.push message thread },
      rfl, rfl, rfl, ?_⟩
    simp only [Logger.outputMessage, if_pos hconsole]
    rfl
  · refine ⟨{ lg with buffer := lg.buffer.push message thread }, rfl, rfl, rfl, ?_⟩
    simp only [Logger.outputMessage, if_neg hconsole]
    rfl

/-- What `output_Message` does to what is written and pending. -/
theorem outputMessage_spec (hcount : lg.buffer.count < maxBufferedMessages) (level : LogLevel)
    (text : LogText) (thread : Nat) :
    (lg.outputMessage level text.bytes thread).logLevelForBuffer = lg.logLevelForBuffer ∧
      if Flushes lg level then
        (lg.outputMessage level text.bytes thread).writtenTexts =
            lg.writtenTexts ++ lg.pendingTexts ++ [text.bytes] ∧
          (lg.outputMessage level text.bytes thread).buffer.count = 0
      else
        (lg.outputMessage level text.bytes thread).writtenTexts = lg.writtenTexts ∧
          (lg.outputMessage level text.bytes thread).pendingTexts =
            lg.pendingTexts ++ [text.bytes] ∧
          (lg.outputMessage level text.bytes thread).buffer.count = lg.buffer.count + 1 := by
  obtain ⟨lg₁, hwrites, hbuffer, hlevel, heq⟩ := outputMessage_eq lg level text.bytes thread
  have hwritten : lg₁.writtenTexts = lg.writtenTexts := by
    simp only [Logger.writtenTexts, hwrites]
  have hpending : lg₁.pendingTexts = lg.pendingTexts ++ [text.bytes] := by
    simp only [Logger.pendingTexts, hbuffer, pending_push hcount, List.map_append, List.map_cons,
      List.map_nil]
  obtain ⟨hfile, -, hkept⟩ := writeMessagesToFile_spec lg₁
  rw [heq]
  by_cases hflush : Flushes lg level
  · simp only [if_pos hflush]
    refine ⟨hkept.trans hlevel, ?_, trivial⟩
    exact hfile.trans (by rw [hwritten, hpending, List.append_assoc])
  · simp only [if_neg hflush]
    exact ⟨hlevel, hwritten, hpending, by rw [hbuffer]; rfl⟩

theorem pendingTexts_of_count (hcount : lg.buffer.count = 0) : lg.pendingTexts = [] := by
  simp [Logger.pendingTexts, MessageBuffer.pending, hcount]

/-! ## Runs -/

/-- Nothing is lost or doubled, and the next message has a slot. -/
structure Kept (h : History LogAct LogOut) (lg : Logger) : Prop where
  texts : lg.writtenTexts ++ lg.pendingTexts = outputTexts h
  room : lg.buffer.count ≤ maxBufferedMessages - 2

theorem kept_init (c : LogSetup) : Kept [] (Logger.init c) := ⟨rfl, Nat.zero_le _⟩

theorem outputTexts_snoc (h : History LogAct LogOut) (a : LogAct) (o : LogOut) :
    outputTexts (h ++ [(a, o)]) = outputTexts h ++ (o.map Prod.snd).toList := by
  cases o <;> simp [outputTexts]

/-- A call of `output_Message` keeps all texts, and flushes what must be flushed. -/
theorem kept_output (hinv : Kept h lg) (a : LogAct) (level : LogLevel) (text : LogText)
    (thread : Nat) :
    Kept (h ++ [(a, some (lg.buffer.count, text.bytes))])
        (lg.outputMessage level text.bytes thread) ∧
      (Flushes lg level → (lg.outputMessage level text.bytes thread).pendingTexts = []) ∧
      ((lg.outputMessage level text.bytes thread).pendingTexts = [] → Flushes lg level) := by
  have hroom := hinv.room
  have hslot : lg.buffer.count < maxBufferedMessages := lt_of_le_of_lt hroom (by decide)
  obtain ⟨-, hspec⟩ := outputMessage_spec hslot level text thread
  split at hspec
  · rename_i hflush
    obtain ⟨hwritten, hcount⟩ := hspec
    have hnone := pendingTexts_of_count hcount
    refine ⟨⟨?_, by rw [hcount]; exact Nat.zero_le _⟩, fun _ => hnone, fun _ => hflush⟩
    rw [hnone, hwritten, List.append_nil, hinv.texts, outputTexts_snoc]
    rfl
  · rename_i hflush
    obtain ⟨hwritten, hpending, hcount⟩ := hspec
    refine ⟨⟨?_, ?_⟩, fun h => absurd h hflush, fun h => ?_⟩
    · rw [hwritten, hpending, ← List.append_assoc, hinv.texts, outputTexts_snoc]
      rfl
    · -- Not full, so the count stays below the last slot but one.
      unfold Flushes maxBufferedMessages at hflush
      unfold maxBufferedMessages
      omega
    · rw [hpending] at h
      simp at h

/-- The write of `log_shutdown` doubles exactly what its own line left pending. -/
theorem kept_shutdown (hinv : Kept h lg) (line : LogText) (thread : Nat) :
    (Flushes lg .trace →
        Kept (h ++ [(.shutdown line thread, some (lg.buffer.count, line.bytes))])
            (lg.logShutdown line.bytes thread) ∧
          (lg.logShutdown line.bytes thread).pendingTexts = []) ∧
      ((lg.logShutdown line.bytes thread).pendingTexts = [] → Flushes lg .trace) := by
  obtain ⟨hkept, hflushed, hconv⟩ :=
    kept_output hinv (.shutdown line thread) .trace line thread
  obtain ⟨hfile, hbuffer, -⟩ := writeMessagesToFile_spec (lg.outputMessage .trace line.bytes thread)
  have hpending : (lg.logShutdown line.bytes thread).pendingTexts =
      (lg.outputMessage .trace line.bytes thread).pendingTexts := by
    simp only [Logger.logShutdown, Logger.pendingTexts, hbuffer]
  refine ⟨fun hflush => ?_, fun hnone => hconv (hpending ▸ hnone)⟩
  have hnone := hflushed hflush
  refine ⟨⟨?_, ?_⟩, by rw [hpending, hnone]⟩
  · rw [hpending, hnone, List.append_nil, Logger.logShutdown, hfile, hnone, List.append_nil]
    have htexts := hkept.texts
    rwa [hnone, List.append_nil] at htexts
  · rw [Logger.logShutdown, hbuffer]
    exact hkept.room

/-- The next message has a slot. -/
theorem slot_lt (hroom : lg.buffer.count ≤ maxBufferedMessages - 2) {text : LogText} :
    ∀ e, some (lg.buffer.count, text.bytes) = some e → e.1 < maxBufferedMessages := by
  intro e he
  cases he
  exact lt_of_le_of_lt hroom (by decide)

/-- When the line of `log_shutdown` flushes. -/
theorem flushes_trace_iff (hroom : lg.buffer.count ≤ maxBufferedMessages - 2) :
    Flushes lg .trace ↔
      lg.logLevelForBuffer.val = 0 ∨ lg.buffer.count = maxBufferedMessages - 2 := by
  have hlevel := lg.logLevelForBuffer.isLt
  unfold Flushes LogLevel.toNat maxBufferedMessages at *
  dsimp only
  omega

theorem kept_step {a : LogAct} {o : LogOut} (hinv : Kept h lg) (honce : exactlyOnce h lg a)
    (hstep : logStep lg a = some (lg', o)) : Kept (h ++ [(a, o)]) lg' := by
  obtain ⟨htexts, -, hnone⟩ := honce lg' o hstep
  refine ⟨htexts, ?_⟩
  cases a with
  | output level text thread =>
      cases hstep
      exact (kept_output hinv (.output level text thread) level text thread).1.room
  | setBufferLevel newLevel line thread =>
      cases hstep
      unfold Logger.setBufferLevel
      split
      · exact hinv.room
      · exact (kept_output hinv (.setBufferLevel newLevel line thread) .error line thread).1.room
  | shutdown line thread =>
      cases hstep
      have hflush := (kept_shutdown hinv line thread).2 (hnone trivial)
      exact ((kept_shutdown hinv line thread).1 hflush).1.room

theorem exactlyOnce_output (hinv : Kept h lg) (level : LogLevel) (text : LogText) (thread : Nat) :
    exactlyOnce h lg (.output level text thread) := by
  intro lg' o hstep
  cases hstep
  obtain ⟨hkept, hflushed, -⟩ := kept_output hinv (.output level text thread) level text thread
  exact ⟨hkept.texts, slot_lt hinv.room, fun hmust =>
    hflushed (.inr (notMem_bufferedLevels.mp hmust))⟩

theorem exactlyOnce_setBufferLevel (hinv : Kept h lg) (newLevel : Int) (line : LogText)
    (thread : Nat) : exactlyOnce h lg (.setBufferLevel newLevel line thread) := by
  intro lg' o hstep
  cases hstep
  by_cases hrange : newLevel ≤ 4 ∧ 0 ≤ newLevel
  · rw [Logger.setBufferLevel, dif_pos hrange, if_pos hrange]
    refine ⟨?_, by rintro e ⟨⟩, fun hmust => absurd hrange hmust⟩
    rw [outputTexts_snoc, Option.map_none, Option.toList_none, List.append_nil]
    exact hinv.texts
  · rw [Logger.setBufferLevel, dif_neg hrange, if_neg hrange]
    obtain ⟨hkept, hflushed, -⟩ :=
      kept_output hinv (.setBufferLevel newLevel line thread) .error line thread
    -- An error is never buffered.
    have hlevel := lg.logLevelForBuffer.isLt
    have hflush : Flushes lg .error := .inr (by simp only [LogLevel.toNat]; omega)
    exact ⟨hkept.texts, slot_lt hinv.room, fun _ => hflushed hflush⟩

theorem exactlyOnce_shutdown (hinv : Kept h lg) (line : LogText) (thread : Nat) :
    exactlyOnce h lg (.shutdown line thread) ↔ Flushes lg .trace := by
  constructor
  · intro honce
    obtain ⟨-, -, hnone⟩ := honce _ _ rfl
    exact (kept_shutdown hinv line thread).2 (hnone trivial)
  · intro hflush lg' o hstep
    cases hstep
    obtain ⟨hkept, hnone⟩ := (kept_shutdown hinv line thread).1 hflush
    exact ⟨hkept.texts, slot_lt hinv.room, fun _ => hnone⟩

/-- **Each log message is written exactly once** in exactly the sequences of calls in which
every `log_shutdown` comes at buffer level 0 or with 18 messages pending. -/
theorem exactlyOnce_iff {c : LogSetup} :
    Run (logMachine c) exactlyOnce h lg ↔ Run (logMachine c) flushedShutdown h lg := by
  refine Run.iff_of_guards (I := Kept) (kept_init c)
    (fun h lg a lg' o hinv hg hstep => kept_step hinv hg hstep) ?_
  intro h lg a lg' o hinv hstep
  cases a with
  | output level text thread =>
      exact iff_of_true (exactlyOnce_output hinv level text thread) trivial
  | setBufferLevel newLevel line thread =>
      exact iff_of_true (exactlyOnce_setBufferLevel hinv newLevel line thread) trivial
  | shutdown line thread =>
      exact (exactlyOnce_shutdown hinv line thread).trans (flushes_trace_iff hinv.room)

/-- At buffer level 1, `log_shutdown` writes two lines and leaves them pending; the next error
writes them again. -/
theorem not_exactlyOnce_shutdown :
    let c : LogSetup := ⟨.trace, [], true, lit "main", []⟩
    let done : LogText := ⟨lit "Shutdown", by decide, by decide⟩
    ∃ h lg lg' o, Run (logMachine c) anyStep h lg ∧ ¬ exactlyOnce h lg (.shutdown done 1) ∧
      logStep lg (.shutdown done 1) = some (lg', o) ∧
      lg'.pendingTexts = [lit "ready", lit "Shutdown"] ∧
      (lg'.outputMessage .error (lit "again") 1).writtenTexts =
        [lit "ready", lit "Shutdown", lit "ready", lit "Shutdown", lit "again"] := by
  obtain ⟨h, lg, lg', o, hrun, -, hstep, hP⟩ := Run.exists_step_of_replay
    (M := logMachine ⟨.trace, [], true, lit "main", []⟩) (G := anyStep)
    [.setBufferLevel 1 ⟨lit "level", by decide, by decide⟩ 1,
      .output .trace ⟨lit "ready", by decide, by decide⟩ 1]
    (.shutdown ⟨lit "Shutdown", by decide, by decide⟩ 1)
    (fun _ _ lg' _ => decide (lg'.pendingTexts = [lit "ready", lit "Shutdown"]) &&
      decide ((lg'.outputMessage .error (lit "again") 1).writtenTexts =
        [lit "ready", lit "Shutdown", lit "ready", lit "Shutdown", lit "again"]))
    (by decide +kernel)
  simp only [Bool.and_eq_true, decide_eq_true_eq] at hP
  refine ⟨h, lg, lg', o, hrun, fun honce => ?_, hstep, hP⟩
  have hnone := (honce lg' o hstep).2.2 trivial
  rw [hP.1] at hnone
  exact absurd hnone (by decide)

end LinuxChat
