import LinuxChat.Logic.LogExpansion

/-!
# The buffers of log_output

`vsnprintf` cuts the message at the size of the buffers, but prefix, colours,
names and times are put around it without a check. For each format the
program installs, a call stays inside its buffers exactly if all of this fits
together with the message (`logOutput_isSome_iff`).
-/

namespace LinuxChat

open CMem Printf

namespace InstalledFormat

/-- What the program can have made of its format variables, its calls taken in any order. -/
inductive InForce : LogFormats → Prop
  | initial : InForce initialFormats
  | logInit {F} : InForce F → InForce (F.logInit general.format)
  | specific {F} (level : LogLevel) : level.toNat ≤ 2 →
      InForce F → InForce (F.setFormatForSpecificLogLevel level specific.format)
  | monochrome {F} : InForce F → InForce (F.setFormatting monochrome.format)
  | help {F} : InForce F → InForce (F.setFormatting help.format)
  | interrupt {F} : InForce F → InForce (F.setFormatting interrupt.format)
  | backup {F} : InForce F → InForce F.useFormattingBackup

/-- Every variable that holds a format holds one of these. -/
structure Installed (F : LogFormats) : Prop where
  generalLogFormat : ∃ i : InstalledFormat, F.generalLogFormat = i.format
  backup : ∃ i : InstalledFormat, F.generalLogFormatBackup = i.format
  specificLogFormat : ∀ level, ∃ i : InstalledFormat, (F.specificLogFormat level).format = i.format

theorem Installed.setFormatting {F : LogFormats} (h : Installed F) (i : InstalledFormat) :
    Installed (F.setFormatting i.format) :=
  ⟨⟨i, rfl⟩, h.generalLogFormat, h.specificLogFormat⟩

theorem InForce.installed {F : LogFormats} (h : InForce F) : Installed F := by
  induction h with
  | initial => exact ⟨⟨.initial, rfl⟩, ⟨.initial, rfl⟩, fun _ => ⟨.initialSpecific, rfl⟩⟩
  | logInit _ ih => exact ⟨⟨.general, rfl⟩, ih.backup, ih.specificLogFormat⟩
  | specific level _ _ ih =>
      refine ⟨ih.generalLogFormat, ih.backup, ?_⟩
      intro other
      dsimp only [LogFormats.setFormatForSpecificLogLevel]
      by_cases hlevel : other = level
      · subst hlevel
        rw [Function.update_self]
        exact ⟨.specific, rfl⟩
      · rw [Function.update_of_ne hlevel]
        exact ih.specificLogFormat other
  | monochrome _ ih => exact ih.setFormatting _
  | help _ ih => exact ih.setFormatting _
  | interrupt _ ih => exact ih.setFormatting _
  | backup _ ih => exact ⟨ih.backup, ih.backup, ih.specificLogFormat⟩

/-- Whatever the program has called, a message is formatted with one of its formats. -/
theorem InForce.exists_target {F : LogFormats} (h : InForce F) (level : LogLevel) :
    ∃ i : InstalledFormat, F.target level = i.format := by
  unfold LogFormats.target
  split
  · exact h.installed.specificLogFormat level
  · exact h.installed.generalLogFormat

/-- The tags of a format. -/
def tags : InstalledFormat → List LogTag
  | initial => [.colorBegin, .funcName, .line, .colorEnd, .colorBegin, .text, .colorEnd, .newLine]
  | initialSpecific => [.colorBegin, .logLevel, .alignment, .colorEnd, .colorBegin, .funcName,
      .line, .colorEnd, .colorBegin, .text, .colorEnd, .newLine]
  | general => [.colorBegin, .logLevel, .alignment, .colorEnd, .time, .milliSecond, .colorBegin,
      .funcName, .colorEnd, .line, .colorBegin, .text, .colorEnd, .newLine]
  | specific => [.colorBegin, .logLevel, .alignment, .colorEnd, .time, .milliSecond, .colorBegin,
      .shortenedFileName, .funcName, .colorEnd, .line, .colorBegin, .text, .colorEnd, .newLine]
  | monochrome => [.logLevel, .alignment, .funcName, .line, .text, .newLine]
  | help => [.text, .newLine]
  | interrupt => [.text]

/-- The characters of a format outside its tags. -/
def plain : InstalledFormat → Nat
  | initial => 17
  | initialSpecific => 10
  | general => 12
  | specific => 14
  | monochrome => 10
  | help => 2
  | interrupt => 0

theorem tags_format (i : InstalledFormat) : logMarkup.tags i.format.bytes = i.tags := by
  cases i <;> rfl

theorem plain_format (i : InstalledFormat) : logMarkup.plain i.format.bytes = i.plain := by
  cases i <;> rfl

/-- The bytes a format puts around prefix and message. -/
def around (c : LogCall) : InstalledFormat → Nat
  | initial => 46 + c.funcName.bytes.length + (padded 0 c.line).length
  | initialSpecific => 58 + c.funcName.bytes.length + (padded 0 c.line).length
  | general => 71 + c.funcName.bytes.length + (padded 0 c.line).length
  | specific => 73 + (basename c.fileName.bytes).1.length + c.funcName.bytes.length +
      (padded 0 c.line).length
  | monochrome => 16 + c.funcName.bytes.length + (padded 0 c.line).length
  | help => 3
  | interrupt => 0

end InstalledFormat

namespace LogCall

variable {c : LogCall} {env : FormatEnv}

/-! ## The lengths of the tags -/

theorem length_colorBegin : (c.tagText env .colorBegin).length = 7 := by
  show (consoleColourStrings c.level).length = 7
  cases c.level <;> rfl

theorem length_colorEnd : (c.tagText env .colorEnd).length = 7 := rfl

theorem length_newLine : (c.tagText env .newLine).length = 1 := rfl

/-- With the blank of `$X` all levels are equally long. -/
theorem length_logLevel_alignment :
    (c.tagText env .logLevel).length + (c.tagText env .alignment).length = 5 := by
  unfold tagText command
  dsimp only
  cases c.level <;> rfl

theorem length_time : (c.tagText env .time).length = 8 := by
  have hhour := c.locTime.hour_lt
  have hmin := c.locTime.min_lt
  have hsec := c.locTime.sec_le
  have hcolon : (lit ":").length = 1 := rfl
  unfold tagText command
  simp only [Option.getD_some, List.length_append, hcolon]
  rw [length_padded_natCast (by decide) (by omega), length_padded_natCast (by decide) (by omega),
    length_padded_natCast (by decide) (by omega)]

theorem length_milliSecond (henv : ∀ k, env.clock k < 1000000000) :
    (c.tagText env .milliSecond).length = 3 := by
  have hclock := henv 0
  have hmilli : milliseconds (env.clock 0) < 10 ^ 3 := by
    unfold milliseconds
    omega
  exact length_padded_natCast (by decide) hmilli

theorem length_text : (c.tagText env .text).length =
    c.pre.bytes.length + min c.printed.bytes.length (maxMessageSize - 1) := by
  show (c.pre.bytes ++ c.messageFormatted).length = _
  rw [List.length_append, messageFormatted, List.length_take, Nat.min_comm]

/-! ## The lengths of the formats -/

/-- Each format of the program has the message once, and the rest around it. -/
theorem length_expansion_format (c : LogCall) (i : InstalledFormat) :
    (c.expansion c.env i.format.bytes).length =
      c.pre.bytes.length + min c.printed.bytes.length (maxMessageSize - 1) + i.around c := by
  generalize hn : c.pre.bytes.length + min c.printed.bytes.length (maxMessageSize - 1) = n
  have htext : ∀ env, (c.tagText env .text).length = n := fun _ => length_text.trans hn
  have hlevel : (c.tagText c.env .logLevel).length + (c.tagText c.env .alignment).length = 5 :=
    length_logLevel_alignment
  have hmilli : (c.tagText c.env .milliSecond).length = 3 := length_milliSecond c.clock_lt
  have hfunc : ∀ env, (c.tagText env .funcName).length = c.funcName.bytes.length := fun _ => rfl
  have hline : ∀ env, (c.tagText env .line).length = (padded 0 c.line).length := fun _ => rfl
  have hname : ∀ clock, (c.tagText ⟨c.env.fileName, clock⟩ .shortenedFileName).length =
      (basename c.fileName.bytes).1.length := fun _ => rfl
  rw [expansion, Markup.length_expand, i.tags_format, i.plain_format]
  cases i <;>
    simp only [InstalledFormat.tags, InstalledFormat.plain, InstalledFormat.around,
      Markup.textLength, FormatEnv.next, length_colorBegin, length_colorEnd, length_newLine,
      length_time, htext, hmilli, hfunc, hline, hname] <;>
    grind

/-! ## The call -/

/-- A call with the data of the level, the function and the text. -/
def callOf (level : LogLevel) (pre funcName fileName : CString) (line : Int)
    (message printed : CString) (hprinted : message.bytes = [] → printed.bytes = []) :
    LogCall where
  level := level
  pre := pre
  funcName := funcName
  fileName := fileName
  line := line
  threadId := 0xb5bff640
  message := message
  printed := printed
  printed_nil := hprinted
  locTime := ⟨16, 15, 14, 19, 10, 125, by decide, by decide, by decide, by decide, by decide⟩
  clock := fun _ => 345000000
  clock_lt := fun _ => by decide
  formatBuffer := .zero maxMessageSize

/-- The trace message at the start of `create_User`. -/
def startCall : LogCall :=
  callOf .trace ⟨lit "START ", by decide⟩ ⟨lit "create_User", by decide⟩
    ⟨lit "src/user.c", by decide⟩ 19 ⟨lit "thread: %ld, socket: %d", by decide⟩
    ⟨lit "thread: 140, socket: 4", by decide⟩ (fun h => absurd h (by decide))

/-- What `Non-option argument: %s` prints. -/
def nonOption (arg : CString) : CString :=
  ⟨lit "Non-option argument: " ++ arg.bytes ++ lit "\n", by
    simp only [List.mem_append, not_or]
    exact ⟨⟨by decide, arg.nulFree⟩, by decide⟩⟩

/-- The warning of `application_Startup` about an argument that is no option. -/
def nonOptionCall (arg : CString) : LogCall :=
  callOf .warn .empty ⟨lit "application_Startup", by decide⟩
    ⟨lit "src/application.c", by decide⟩ 124 ⟨lit "Non-option argument: %s\n", by decide⟩
    (nonOption arg) (fun h => absurd h (by decide))

theorem inForce_startupFormats : InstalledFormat.InForce startupFormats :=
  .specific _ (by decide) (.specific _ (by decide) (.specific _ (by decide) (.logInit .initial)))

/-- An argument of 2000 characters. -/
def longArgument : CString :=
  ⟨List.replicate 2000 120, fun h => absurd (List.eq_of_mem_replicate h) (by decide)⟩

/-- A long argument on the command line fits with its text, but not with what is put around. -/
theorem logOutput_overflow :
    InstalledFormat.InForce startupFormats ∧
      (nonOptionCall longArgument).logOutput startupFormats = none := by
  refine ⟨inForce_startupFormats, ?_⟩
  have htarget : startupFormats.target (nonOptionCall longArgument).level =
      InstalledFormat.specific.format := rfl
  have hreturn : ¬ (nonOptionCall longArgument).ReturnsAtOnce := by
    intro h
    exact absurd h.1 (by decide)
  have hlen : (nonOptionCall longArgument).printed.bytes.length = 2022 := by
    show (lit "Non-option argument: " ++ List.replicate 2000 120 ++ lit "\n").length = 2022
    rw [List.length_append, List.length_append, List.length_replicate]
    rfl
  have haround : 73 ≤ InstalledFormat.specific.around (nonOptionCall longArgument) := by
    decide +kernel
  have hfull : ¬ ((nonOptionCall longArgument).expanded startupFormats).length <
      maxMessageSize := by
    rw [expanded, htarget, length_expansion_format, hlen]
    unfold maxMessageSize
    omega
  rw [logOutput_eq, if_neg hreturn, if_neg hfull]

theorem isSome_logOutput_iff (F : LogFormats) (c : LogCall) :
    (c.logOutput F).isSome = true ↔
      c.ReturnsAtOnce ∨ (c.expanded F).length < maxMessageSize := by
  rw [logOutput_eq]
  by_cases hreturn : c.ReturnsAtOnce
  · rw [if_pos hreturn]
    exact ⟨fun _ => Or.inl hreturn, fun _ => rfl⟩
  · rw [if_neg hreturn]
    constructor
    · intro hsome
      right
      split at hsome
      · assumption
      · cases hsome
    · intro hfits
      rw [if_pos (hfits.resolve_left hreturn)]
      rfl

/-- In whatever order the program has called the functions that change its formats. -/
theorem isSome_logOutput_inForce {F : LogFormats} (hF : InstalledFormat.InForce F)
    (c : LogCall) : ∃ i : InstalledFormat, F.target c.level = i.format ∧
      ((c.logOutput F).isSome = true ↔ c.ReturnsAtOnce ∨
        c.pre.bytes.length + min c.printed.bytes.length (maxMessageSize - 1) + i.around c <
          maxMessageSize) := by
  obtain ⟨i, hi⟩ := hF.exists_target c.level
  refine ⟨i, hi, ?_⟩
  rw [isSome_logOutput_iff, expanded, hi, length_expansion_format]

/-- **With one of the formats of the program in force, a call stays inside its buffers exactly if
it returns at once or prefix, message and all that is put around them fit with the terminator.** -/
theorem logOutput_isSome_iff (F : LogFormats) (c : LogCall) (i : InstalledFormat)
    (hfmt : F.target c.level = i.format) :
    (c.logOutput F).isSome = true ↔
      c.ReturnsAtOnce ∨
        c.pre.bytes.length + min c.printed.bytes.length (maxMessageSize - 1) + i.around c <
          maxMessageSize := by
  rw [isSome_logOutput_iff, expanded, hfmt, length_expansion_format]

/-- The message at the start of `create_User` is written. -/
theorem logOutput_isSome_iff_start : (startCall.logOutput startupFormats).isSome = true :=
  (logOutput_isSome_iff startupFormats startCall .general rfl).mpr (Or.inr (by decide +kernel))

end LogCall

end LinuxChat
