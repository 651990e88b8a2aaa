import LinuxChat.Lib.Trace
import LinuxChat.Model.Defines

/-!
# The log buffer

`output_Message`, `WriteMessagesToFile`, `log_shutdown` and
`set_buffer_Level` of logger.c on the static variables they use. Opening,
writing and closing a file always succeeds; what was written is kept in
order, each line with its file.
-/

namespace LinuxChat

open CMem Trace

/-- `MAX_MESSAGE_SIZE`. -/
def maxMessageSize : Nat := 2048

/-- `MAX_BUFFERED_MESSAGES`. -/
def maxBufferedMessages : Nat := 20

/-- `REGISTERED_THREAD_NAME_LEN_MAX`. -/
def registeredThreadNameLenMax : Nat := 256

/-- `enum log_level`. -/
inductive LogLevel
  | fatal
  | error
  | warn
  | info
  | debug
  | trace
  deriving DecidableEq, Repr

def LogLevel.toNat : LogLevel → Nat
  | .fatal => 0
  | .error => 1
  | .warn => 2
  | .info => 3
  | .debug => 4
  | .trace => 5

/-- A text that fits into a slot with its terminator. -/
@[ext] structure LogText where
  bytes : List UInt8
  nulFree : 0 ∉ bytes
  lt : bytes.length < maxMessageSize

instance : DecidableEq LogText := fun a b =>
  decidable_of_iff (a.bytes = b.bytes) ⟨LogText.ext, congrArg LogText.bytes⟩

/-- `message_plus_thread`, its text as the C string it holds. -/
structure MessagePlusThread where
  text : List UInt8
  thread : Nat
  deriving DecidableEq

/-- `MessageBuffer`. -/
structure MessageBuffer where
  messages : List MessagePlusThread
  length_messages : messages.length = maxBufferedMessages
  count : Nat
  deriving DecidableEq

/-- What goes to the log files. -/
inductive LogWrite
  /-- The title `Create_Log_File` starts a file with. -/
  | title (file : List UInt8)
  /-- `fputs(text, file)`. -/
  | text (file text : List UInt8)
  deriving DecidableEq

/-- What decides where a message goes: the console level, the list from `firstEntry` on
(thread and file name), the settings of `log_init`, and the files there are. -/
structure LogSetup where
  internalLevel : LogLevel
  threadNames : List (Nat × List UInt8)
  useSeparateFiles : Bool
  mainLogFileName : List UInt8
  files : List (List UInt8)
  deriving DecidableEq

/-- The static variables of logger.c, and what has gone to the console and to the files. -/
structure Logger extends LogSetup where
  /-- `log_level_for_buffer`: one of the values `set_buffer_Level` lets through. -/
  logLevelForBuffer : Fin 5
  buffer : MessageBuffer
  writes : List LogWrite
  console : List (List UInt8)
  deriving DecidableEq

namespace MessageBuffer

/-- All slots zero, `count` zero. -/
def empty : MessageBuffer := ⟨List.replicate maxBufferedMessages ⟨[], 0⟩, by simp, 0⟩

/-- The messages below `count`. -/
def pending (b : MessageBuffer) : List MessagePlusThread := b.messages.take b.count

/-- Store a message in slot `count` and count it: `strncpy` keeps what fits before the
terminator. -/
def push (b : MessageBuffer) (message : List UInt8) (thread : Nat) : MessageBuffer where
  messages := b.messages.set b.count ⟨(cstr message).take (maxMessageSize - 1), thread⟩
  length_messages := by rw [List.length_set, b.length_messages]
  count := b.count + 1

end MessageBuffer

namespace Logger

/-- An empty buffer, and everything buffered by no level. -/
def init (c : LogSetup) : Logger where
  toLogSetup := c
  logLevelForBuffer := 0
  buffer := .empty
  writes := []
  console := []

/-- `snprintf(filename, sizeof(filename), ...)`. -/
def fileName (parts : List (List UInt8)) : List UInt8 :=
  parts.flatten.take (registeredThreadNameLenMax - 1)

/-- A thread id as `%lu` prints it. -/
def decimal (n : Nat) : List UInt8 := (Nat.toDigits 10 n).map fun c => UInt8.ofNat c.toNat

/-- The file of a thread's messages, and whether it is started with a title if it is not
there. -/
def logFile (lg : Logger) (thread : Nat) : List UInt8 × Bool :=
  if lg.useSeparateFiles then
    match lg.threadNames.lookup thread with
    | some name => (fileName [name], false)
    | none => (fileName [lit "./logs/thread_log_", decimal thread, lit ".log"], true)
  else (fileName [lit "./logs/", lg.mainLogFileName, lit ".log"], true)

/-- One pass of the loop of `WriteMessagesToFile`. -/
def writeMessage (lg : Logger) (m : MessagePlusThread) : Logger :=
  let (file, create) := lg.logFile m.thread
  let title := if create && !lg.files.contains file then [LogWrite.title file] else []
  { lg with
    files := if lg.files.contains file then lg.files else lg.files ++ [file]
    writes := lg.writes ++ title ++ [.text file m.text] }

/-- `WriteMessagesToFile`: every message below `count`; the count stays as it is. -/
def writeMessagesToFile (lg : Logger) : Logger := lg.buffer.pending.foldl writeMessage lg

/-- `output_Message`. -/
def outputMessage (lg : Logger) (level : LogLevel) (message : List UInt8) (threadID : Nat) :
    Logger :=
  let lg := if level.toNat ≤ lg.internalLevel.toNat then
    { lg with console := lg.console ++ [message] } else lg
  let lg := { lg with buffer := lg.buffer.push message threadID }
  -- The buffer is written out when it is full but for one slot, or for an important message.
  if maxBufferedMessages - 1 ≤ lg.buffer.count ∨ level.toNat < 6 - lg.logLevelForBuffer.val then
    let lg := lg.writeMessagesToFile
    { lg with buffer := { lg.buffer with count := 0 } }
  else lg

/-- `log_shutdown`: its own line, then the buffer. The count is not reset. -/
def logShutdown (lg : Logger) (line : List UInt8) (threadID : Nat) : Logger :=
  (lg.outputMessage .trace line threadID).writeMessagesToFile

/-- `set_buffer_Level`; a level out of range is logged as an error. -/
def setBufferLevel (lg : Logger) (newLevel : Int) (line : List UInt8) (threadID : Nat) : Logger :=
  if h : newLevel ≤ 4 ∧ 0 ≤ newLevel then
    { lg with logLevelForBuffer := ⟨newLevel.toNat, by omega⟩ }
  else lg.outputMessage .error line threadID

end Logger

inductive LogAct
  /-- `output_Message(level, text, thread)`. -/
  | output (level : LogLevel) (text : LogText) (thread : Nat)
  /-- `set_buffer_Level(newLevel)`; `line` is the line it logs if the level is out of range. -/
  | setBufferLevel (newLevel : Int) (line : LogText) (thread : Nat)
  /-- `log_shutdown()`; `line` is its own line. -/
  | shutdown (line : LogText) (thread : Nat)
  deriving DecidableEq

/-- The message a step puts into the buffer, and the slot it uses. -/
abbrev LogOut := Option (Nat × List UInt8)

/-- One call of a function that uses the buffer, in one piece. -/
def logStep (lg : Logger) : LogAct → Option (Logger × LogOut)
  | .output level text thread =>
      some (lg.outputMessage level text.bytes thread, some (lg.buffer.count, text.bytes))
  | .setBufferLevel newLevel line thread =>
      some (lg.setBufferLevel newLevel line.bytes thread,
        if newLevel ≤ 4 ∧ 0 ≤ newLevel then none else some (lg.buffer.count, line.bytes))
  | .shutdown line thread =>
      some (lg.logShutdown line.bytes thread, some (lg.buffer.count, line.bytes))

/-- The calls, in any order. -/
def logMachine (c : LogSetup) : Machine Logger LogAct LogOut := ⟨.init c, logStep⟩

/-- The texts output so far. -/
def outputTexts (h : History LogAct LogOut) : List (List UInt8) :=
  h.filterMap fun e => e.2.map Prod.snd

/-- The texts written to log files so far. -/
def Logger.writtenTexts (lg : Logger) : List (List UInt8) :=
  lg.writes.filterMap fun
    | .title _ => none
    | .text _ text => some text

/-- The texts still in the buffer. -/
def Logger.pendingTexts (lg : Logger) : List (List UInt8) := lg.buffer.pending.map (·.text)

end LinuxChat
