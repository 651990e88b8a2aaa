import Mathlib.Data.List.DropRight
import Mathlib.Logic.Function.Basic
import LinuxChat.Lib.Markup
import LinuxChat.Lib.Printf
import LinuxChat.Model.Logger

/-!
# The formatting of a log message

`log_output` of logger.c: the loop over the format of the message's level,
with `Format_Buffer` and `message_out` as arrays. A write that leaves its
array ends the call without a result. The local time, what `vsnprintf` would
print and the readings of the clock are inputs; `int FormatLen` holds the
length of the format.
-/

namespace LinuxChat

open CMem Printf

/-! ## Inputs -/

/-- `struct tm`, as `localtime` fills it in. -/
structure Tm where
  tmSec : Nat
  tmMin : Nat
  tmHour : Nat
  tmMday : Nat
  tmMon : Nat
  tmYear : Int
  sec_le : tmSec ≤ 60
  min_lt : tmMin < 60
  hour_lt : tmHour < 24
  mday_le : tmMday ≤ 31
  mon_lt : tmMon < 12

/-- `SpecificLogLevelFormat`. -/
structure SpecificLogLevelFormat where
  isInUse : Bool
  format : CString

/-- `m_GeneralLogFormat`, its backup, and `SpecificLogFormatArray`. -/
structure LogFormats where
  generalLogFormat : CString
  generalLogFormatBackup : CString
  specificLogFormat : LogLevel → SpecificLogLevelFormat

namespace LogFormats

/-- `locTargetFormat`. -/
def target (F : LogFormats) (level : LogLevel) : CString :=
  if (F.specificLogFormat level).isInUse then (F.specificLogFormat level).format
  else F.generalLogFormat

/-- `log_init`: the general format it is given. -/
def logInit (F : LogFormats) (format : CString) : LogFormats :=
  { F with generalLogFormat := format }

/-- `set_Formatting`. -/
def setFormatting (F : LogFormats) (format : CString) : LogFormats :=
  { F with generalLogFormatBackup := F.generalLogFormat, generalLogFormat := format }

/-- `use_Formatting_Backup`. -/
def useFormattingBackup (F : LogFormats) : LogFormats :=
  { F with generalLogFormat := F.generalLogFormatBackup }

/-- `Set_Format_For_Specific_Log_Level`. -/
def setFormatForSpecificLogLevel (F : LogFormats) (level : LogLevel) (format : CString) :
    LogFormats :=
  { F with specificLogFormat := Function.update F.specificLogFormat level ⟨true, format⟩ }

/-- `Disable_Format_For_Specific_Log_Level`. -/
def disableFormatForSpecificLogLevel (F : LogFormats) (level : LogLevel) : LogFormats :=
  { F with
    specificLogFormat := Function.update F.specificLogFormat level
      ⟨false, (F.specificLogFormat level).format⟩ }

end LogFormats

/-! ## The formats of the program -/

/-- The formats of the program. -/
inductive InstalledFormat
  /-- `m_GeneralLogFormat` and its backup, before `log_init`. -/
  | initial
  /-- `SpecificLogFormatArray`, not in use. -/
  | initialSpecific
  /-- `log_init` in `application_Startup`. -/
  | general
  /-- `Set_Format_For_Specific_Log_Level`, for the first three levels. -/
  | specific
  /-- Option `-m`. -/
  | monochrome
  /-- `print_Help`. -/
  | help
  /-- `sigint_Handler`. -/
  | interrupt

namespace InstalledFormat

/-- The string literals. -/
def format : InstalledFormat → CString
  | initial => ⟨lit "[Default] [$B$F: $G$E] - $B$C$E$Z", by decide⟩
  | initialSpecific => ⟨lit "[$B$L$X$E] [$B$F: $G$E] - $B$C$E$Z", by decide⟩
  | general => ⟨lit "[$B$L$X$E $T:$J] [$B$F:$E $G] - $B$C$E$Z", by decide⟩
  | specific => ⟨lit "[$B$L$X$E $T:$J] [$B$I: $F:$E $G] - $B$C$E$Z", by decide⟩
  | monochrome => ⟨lit "[$L$X] [$F: $G] - $C$Z", by decide⟩
  | help => ⟨lit "  $C$Z", by decide⟩
  | interrupt => ⟨lit "$C", by decide⟩

/-- The static initialisers of logger.c. -/
def initialFormats : LogFormats :=
  ⟨initial.format, initial.format, fun _ => ⟨false, initialSpecific.format⟩⟩

end InstalledFormat

/-- The formats a server without options runs with. -/
def LogCall.startupFormats : LogFormats :=
  let F := InstalledFormat.initialFormats.logInit InstalledFormat.general.format
  let F := F.setFormatForSpecificLogLevel .fatal InstalledFormat.specific.format
  let F := F.setFormatForSpecificLogLevel .error InstalledFormat.specific.format
  F.setFormatForSpecificLogLevel .warn InstalledFormat.specific.format

/-! ## Calls -/

/-- A call of `log_output`, and what it reads. -/
structure LogCall where
  level : LogLevel
  pre : CString
  funcName : CString
  fileName : CString
  line : Int
  threadId : UInt64
  message : CString
  /-- All that `message` and the arguments print. -/
  printed : CString
  printed_nil : message.bytes = [] → printed.bytes = []
  locTime : Tm
  /-- `tv_nsec` of one `clock_gettime` after the other. -/
  clock : Nat → Nat
  clock_lt : ∀ k, clock k < 1000000000
  /-- What is on the stack where `Format_Buffer` lies. -/
  formatBuffer : Buf maxMessageSize

/-- What changes while a message is formatted: the string at `fileName`, which `basename` may cut,
and the clock. -/
structure FormatEnv where
  fileName : List UInt8
  clock : Nat → Nat

/-! ## Tags -/

/-- The tags, by their names in logger.h. -/
inductive LogTag
  | time
  | hour
  | minute
  | second
  | milliSecond
  | date
  | dateYear
  | dateMonth
  | dateDay
  | funcName
  | fileName
  | shortenedFileName
  | line
  | threadId
  | logLevel
  | alignment
  | colorBegin
  | colorEnd
  | text
  | newLine
  deriving DecidableEq

/-- The letters the switch has a case for. -/
def LogTag.ofByte (c : UInt8) : Option LogTag :=
  match Char.ofNat c.toNat with
  | 'B' => some .colorBegin
  | 'E' => some .colorEnd
  | 'C' => some .text
  | 'L' => some .logLevel
  | 'Z' => some .newLine
  | 'X' => some .alignment
  | 'F' => some .funcName
  | 'A' => some .fileName
  | 'P' => some .threadId
  | 'I' => some .shortenedFileName
  | 'G' => some .line
  | 'T' => some .time
  | 'H' => some .hour
  | 'M' => some .minute
  | 'S' => some .second
  | 'J' => some .milliSecond
  | 'N' => some .date
  | 'Y' => some .dateYear
  | 'O' => some .dateMonth
  | 'D' => some .dateDay
  | _ => none

/-- The formats of `log_output`: `$` and a letter. -/
def logMarkup : Markup UInt8 LogTag := ⟨36, LogTag.ofByte⟩

/-! ## Texts -/

/-- `Console_Colour_Strings`. -/
def consoleColourStrings : LogLevel → List UInt8
  | .fatal => lit "\x1b[1;41m"
  | .error => lit "\x1b[1;31m"
  | .warn => lit "\x1b[1;93m"
  | .info => lit "\x1b[1;32m"
  | .debug => lit "\x1b[1;94m"
  | .trace => lit "\x1b[0;37m"

/-- `Console_Colour_Reset`. -/
def consoleColourReset : List UInt8 := lit "\x1b[0;39m"

/-- `level_str`. -/
def levelStr : LogLevel → List UInt8
  | .fatal => lit "FATAL"
  | .error => lit "ERROR"
  | .warn => lit "WARN"
  | .info => lit "INFO"
  | .debug => lit "DEBUG"
  | .trace => lit "TRACE"

/-- `basename` of libgen.h: the last component, and the string it leaves at `path`, from which
slashes at the end are cut. -/
def basename (path : List UInt8) : List UInt8 × List UInt8 :=
  if path = [] then (lit ".", path)
  else if path.rdropWhile (· = 47) = [] then (lit "/", path)
  else ((path.rdropWhile (· = 47)).rtakeWhile (· ≠ 47), path.rdropWhile (· = 47))

/-- `(long)(spec.tv_nsec / 1.0e6)`. -/
def milliseconds (nsec : Nat) : Nat := nsec / 1000000

/-- What a tag leaves for the next one. -/
def FormatEnv.next (env : FormatEnv) : LogTag → FormatEnv
  | .shortenedFileName => { env with fileName := (basename env.fileName).2 }
  | .milliSecond => { env with clock := fun k => env.clock (k + 1) }
  | _ => env

namespace LogCall

/-- `message_formatted`, cut by `vsnprintf`. -/
def messageFormatted (c : LogCall) : List UInt8 := c.printed.bytes.take (maxMessageSize - 1)

/-- The cases of the switch: what `LOGGER_FORMAT_FORMAT_MESSAGE` is used on, if it is. -/
def command (c : LogCall) (env : FormatEnv) : LogTag → Option (List UInt8)
  | .colorBegin => some (consoleColourStrings c.level)
  | .colorEnd => some consoleColourReset
  | .text => some (c.pre.bytes ++ c.messageFormatted)
  | .logLevel => some (levelStr c.level)
  | .newLine => some (lit "\n")
  | .alignment => if c.level = .info ∨ c.level = .warn then some (lit " ") else none
  | .funcName => some c.funcName.bytes
  | .fileName => some env.fileName
  | .threadId => some (numeral 16 c.threadId.toUInt32.toNat)
  | .shortenedFileName => some (basename env.fileName).1
  | .line => some (padded 0 c.line)
  | .time => some (padded 2 c.locTime.tmHour ++ lit ":" ++ padded 2 c.locTime.tmMin ++ lit ":" ++
      padded 2 c.locTime.tmSec)
  | .hour => some (padded 2 c.locTime.tmHour)
  | .minute => some (padded 2 c.locTime.tmMin)
  | .second => some (padded 2 c.locTime.tmSec)
  | .milliSecond => some (padded 3 (milliseconds (env.clock 0)))
  | .date => some (padded 4 (c.locTime.tmYear + 1900) ++ lit "/" ++
      padded 2 (c.locTime.tmMon + 1 : Nat) ++ lit "/" ++ padded 2 c.locTime.tmMday)
  | .dateYear => some (padded 4 (c.locTime.tmYear + 1900))
  | .dateMonth => some (padded 2 (c.locTime.tmMon + 1 : Nat))
  | .dateDay => some (padded 2 c.locTime.tmMday)

end LogCall

/-! ## The loop -/

/-- The local variables of `log_output` that the loop changes. -/
structure FormatState where
  messageOut : Buf maxMessageSize
  formatBuffer : Buf maxMessageSize
  env : FormatEnv

/-- `LOGGER_FORMAT_FORMAT_MESSAGE`. -/
def FormatState.formatMessage (st : FormatState) (text : List UInt8) : Option FormatState :=
  (st.formatBuffer.sprintf text).bind fun formatBuffer =>
    (st.messageOut.strcat formatBuffer.bytes).map fun messageOut =>
      { st with formatBuffer := formatBuffer, messageOut := messageOut }

/-- What is handed to `output_Message`. -/
inductive Logged
  /-- The call returns before it formats anything. -/
  | nothing
  | passed (text : List UInt8)
  deriving DecidableEq

namespace LogCall

/-- The switch of `log_output` over the letter behind a `$`. -/
def formatTag (c : LogCall) (formatCommand : UInt8) (st : FormatState) : Option FormatState :=
  match LogTag.ofByte formatCommand with
  | none => some st
  | some t =>
      match c.command st.env t with
      | none => some { st with env := st.env.next t }
      | some text => { st with env := st.env.next t }.formatMessage text

/-- The loop over the format, from `x` on. -/
def formatFrom (c : LogCall) (locTargetFormat : List UInt8) (x : Nat) (st : FormatState) :
    Option FormatState :=
  if x < locTargetFormat.length then
    if locTargetFormat.getD x 0 = 36 ∧ x + 1 < locTargetFormat.length then
      (c.formatTag (locTargetFormat.getD (x + 1) 0) st).bind fun st =>
        c.formatFrom locTargetFormat (x + 2) st
    else
      (st.messageOut.strncat (locTargetFormat.drop x) 1).bind fun messageOut =>
        c.formatFrom locTargetFormat (x + 1) { st with messageOut := messageOut }
  else some st
termination_by locTargetFormat.length - x

/-- The file name and the clock as the first tag of a call finds them. -/
def env (c : LogCall) : FormatEnv := ⟨c.fileName.bytes, c.clock⟩

/-- `message[0] == '\0' && prefix[0] == '\0'`. -/
def ReturnsAtOnce (c : LogCall) : Prop := c.message.bytes = [] ∧ c.pre.bytes = []

instance (c : LogCall) : Decidable c.ReturnsAtOnce := inferInstanceAs (Decidable (_ ∧ _))

/-- `log_output`; `none` if a write leaves its array. -/
def logOutput (F : LogFormats) (c : LogCall) : Option Logged :=
  if c.ReturnsAtOnce then some .nothing
  else
    (c.formatFrom (F.target c.level).bytes 0 ⟨.zero maxMessageSize, c.formatBuffer, c.env⟩).map
      fun st => .passed (cstr st.messageOut.bytes)

end LogCall

end LinuxChat
