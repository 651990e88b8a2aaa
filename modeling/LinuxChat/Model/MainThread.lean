import LinuxChat.Lib.Table
import LinuxChat.Lib.Trace
import LinuxChat.Model.Application
import LinuxChat.Model.LogFormat

/-!
# The main thread

`main`, with `application_Startup`, `connection_handler` and
`application_Shutdown`, one call of the system a step, and SIGINT, which any
thread may get at any time. What `getopt_long` returns and what the calls
return are inputs; the descriptors that are opened, closed and given to a
thread are the output. A run begins behind the registration of
`sigint_Handler`. What is logged is left out, the format it is logged with is
not: the handlers of several threads share the general format and its one
backup without a lock, so each load and each store of the two is a step.
-/

namespace LinuxChat

open CMem Trace

/-! ## Numbers on the command line -/

/-- `isdigit`. -/
def isDigit (c : UInt8) : Bool := 48 ≤ c && c ≤ 57

/-- `strtol(s, NULL, 10)`. -/
def strtol (s : List UInt8) : Int :=
  let s := skipSpace s
  let signed := s.head? = some 43 ∨ s.head? = some 45
  let digits := (if signed then s.tail else s).takeWhile isDigit
  let value : Nat := digits.foldl (fun v c => 10 * v + (c.toNat - 48)) 0
  if s.head? = some 45 then max (-(value : Int)) (-0x8000000000000000)
  else min (value : Int) 0x7fffffffffffffff

/-- `atoi(s)`, which is `(int) strtol(s, NULL, 10)`. -/
def atoi (s : List UInt8) : Int := (strtol s).bmod 0x100000000

/-- The level of a number below `LL_MAX_NUM`. -/
def LogLevel.ofNat? (n : Nat) : Option LogLevel :=
  [LogLevel.fatal, .error, .warn, .info, .debug, .trace][n]?

/-- What `set_log_level` makes of `internal_level`. -/
def setLogLevel (internalLevel : LogLevel) (newLevel : Nat) : LogLevel :=
  if newLevel < 6 ∧ 0 < newLevel then (LogLevel.ofNat? newLevel).getD internalLevel
  else internalLevel

/-! ## The state -/

/-- What `getopt_long` returns, with `optarg`. -/
inductive Opt
  | admin (optarg : CString)
  | monochrome
  | debugLevel (optarg : CString)
  | serverName (optarg : CString)
  | port (optarg : CString)
  | logFormat (optarg : CString)
  | help
  /-- `'?'`: an option it does not know, or one without its argument. -/
  | unknown

/-- `argv`, as `getopt_long` sees it: the options, and what is left behind `optind`. -/
structure CommandLine where
  options : List Opt
  nonOptions : List CString

/-- What becomes of the descriptors. -/
inductive FdEvent
  | opened (fd : Int)
  | closed (fd : Int)
  /-- `client_Thread` is started with `fd`. -/
  | handed (fd : Int)
  deriving DecidableEq

/-- What `socket` and `bind` return in `is_port_available`. -/
inductive PortTest
  | noSocket
  | notBound (fd : Nat)
  | bound (fd : Nat)
  deriving DecidableEq

/-- Where a thread is in `sigint_Handler`, with what it has loaded. -/
inductive HandlerPhase
  /-- Before `set_Formatting` loads `m_GeneralLogFormat`. -/
  | entered
  | loaded (generalLogFormat : CString)
  /-- The backup is stored. -/
  | saved
  /-- The handler's own format is stored, and the first message logged with it. -/
  | bare
  /-- `use_Formatting_Backup` has loaded the backup. -/
  | reloaded (backup : CString)

/-- Where the main thread is. -/
inductive MainPhase
  /-- The loop over the options, with what `getopt_long` has yet to return. -/
  | options (rest : List Opt)
  /-- The loop from `optind` on. -/
  | nonOptions
  | agentInit
  | socket
  | bind (serverSocket : Nat)
  | listen (serverSocket : Nat)
  | accept (serverSocket : Nat)
  | create (serverSocket sockClient : Nat)
  /-- `application_Shutdown`, behind the loop that accepts. -/
  | shutdown
  | exited (status : Nat)
  /-- A write has left its array. -/
  | fault

/-- The phases in which the process has not ended. -/
def MainPhase.Alive : MainPhase → Prop
  | exited _ | fault => False
  | options _ | nonOptions | agentInit | socket | bind _ | listen _ | accept _ | create _ _
  | shutdown => True

instance : DecidablePred MainPhase.Alive := fun p => by
  cases p <;> first | exact .isTrue trivial | exact .isFalse not_false

/-- The static variables of application.c, `internal_level` and the formats of logger.c, and
where the threads are. -/
structure MainThread where
  adminName : Buf 32
  serverName : Buf 32
  port : Nat
  internalLevel : LogLevel
  formats : LogFormats
  phase : MainPhase
  /-- The port of the server socket. -/
  boundPort : Option Nat
  /-- How many threads have been started; the main thread is number 0. -/
  threads : Nat
  /-- The threads in `sigint_Handler`. -/
  handlers : Table Nat HandlerPhase

namespace MainThread

/-- Behind the first lines of `application_Startup`. -/
def start (argv : CommandLine) : MainThread where
  adminName := ⟨lit "Admin" ++ List.replicate 27 0, rfl⟩
  serverName := ⟨lit "Server_04" ++ List.replicate 23 0, rfl⟩
  port := 8111
  internalLevel := .trace
  formats := LogCall.startupFormats
  phase := .options argv.options
  boundPort := none
  threads := 1
  handlers := Table.empty

/-- `exit(status)`. -/
def exit (s : MainThread) (status : Nat) : MainThread := { s with phase := .exited status }

/-- `print_Help`. -/
def printHelp (s : MainThread) : MainThread :=
  { s with
    formats := (s.formats.setFormatting InstalledFormat.help.format).useFormattingBackup }

/-- `print_help_and_exit`. -/
def printHelpAndExit (s : MainThread) : MainThread :=
  ({ s with internalLevel := setLogLevel s.internalLevel 5 }.printHelp).exit 0

/-- `is_port_available`. -/
def isPortAvailable : PortTest → Bool × List FdEvent
  | .noSocket => (false, [])
  | .notBound fd => (false, [.opened fd, .closed fd])
  | .bound fd => (true, [.opened fd, .closed fd])

/-- The body of the loop over the options. `opt_buffer` is unsigned. -/
def evaluate (s : MainThread) (rest : List Opt) (test : PortTest) :
    Opt → MainThread × List FdEvent
  | .admin optarg =>
      let optBuffer := optarg.bytes.length
      if 0 < optBuffer ∧ optBuffer < 32 then
        ((s.adminName.sprintf optarg.bytes).elim { s with phase := .fault } fun adminName =>
          { s with adminName, phase := .options rest }, [])
      else (s.exit 0, [])
  | .monochrome =>
      ({ s with
        formats := s.formats.setFormatting InstalledFormat.monochrome.format
        phase := .options rest }, [])
  | .debugLevel optarg =>
      -- An `enum log_level` has 32 bits.
      let newLevel := sizeT (atoi optarg.bytes) % 0x100000000
      ({ s with
        internalLevel := setLogLevel s.internalLevel newLevel
        phase := .options rest }, [])
  | .serverName optarg =>
      let optBuffer := optarg.bytes.length
      if 0 < optBuffer ∧ optBuffer < 32 then
        ((s.serverName.sprintf optarg.bytes).elim { s with phase := .fault } fun serverName =>
          { s with serverName, phase := .options rest }, [])
      else (s.exit 1, [])
  | .port optarg =>
      let optBuffer := sizeT (atoi optarg.bytes)
      if 0 < optBuffer ∧ optBuffer < 65535 then
        let available := isPortAvailable test
        (if available.1 then { s with port := optBuffer % 0x10000, phase := .options rest }
          else s.exit 1, available.2)
      else (s.exit 1, [])
  | .logFormat _ => (s.printHelpAndExit, [])
  | .help => (s.printHelpAndExit, [])
  | .unknown => (s.printHelpAndExit, [])

/-- `application_Shutdown`. -/
def applicationShutdown : Int := 0

/-- `sock_server`, which nothing assigns. -/
def sockServer : Int := -1

end MainThread

/-! ## Steps -/

/-- A call of the main thread, with what it returns. -/
inductive MainCall
  /-- `getopt_long` and the body of its loop. -/
  | getopt (test : PortTest)
  | nonOptions
  /-- `broadcast_agent_init`, which starts the agent or not. -/
  | agentInit (started : Bool)
  | socket (fd : Option Nat)
  | bind (ok : Bool)
  | listen (ok : Bool)
  | accept (fd : Option Nat)
  | pthreadCreate (ok : Bool)
  | cleanup
  deriving DecidableEq

inductive MainAct
  | call (c : MainCall)
  /-- A thread gets SIGINT and enters `sigint_Handler`. -/
  | interrupt (thread : Nat)
  /-- The next load or store of its handler. -/
  | handler (thread : Nat)
  deriving DecidableEq

abbrev MainOut := List FdEvent

namespace MainThread

/-- The calls, each where it stands. -/
def call (argv : CommandLine) (s : MainThread) : MainPhase → MainCall →
    Option (MainThread × MainOut)
  | .options [], .getopt _ => some ({ s with phase := .nonOptions }, [])
  | .options (o :: rest), .getopt test => some (s.evaluate rest test o)
  | .nonOptions, .nonOptions =>
      some (if argv.nonOptions = [] then { s with phase := .agentInit } else s.printHelpAndExit, [])
  | .agentInit, .agentInit started =>
      -- The result of `broadcast_agent_init` is not looked at.
      some ({ s with phase := .socket, threads := s.threads + started.toNat }, [])
  | .socket, .socket none => some (s.exit 1, [])
  | .socket, .socket (some fd) => some ({ s with phase := .bind fd }, [.opened fd])
  | .bind sock, .bind ok =>
      -- The port is 8111 here, whatever `port` is.
      some (if ok then { s with phase := .listen sock, boundPort := some 8111 } else s.exit 1, [])
  | .listen sock, .listen ok =>
      some (if ok then { s with phase := .accept sock } else s.exit 1, [])
  | .accept _, .accept none => some ({ s with phase := .shutdown }, [])
  | .accept sock, .accept (some fd) => some ({ s with phase := .create sock fd }, [.opened fd])
  | .create sock fd, .pthreadCreate ok =>
      if ok then some ({ s with phase := .accept sock, threads := s.threads + 1 }, [.handed fd])
      else some ({ s with phase := .accept sock }, [.closed fd])
  | .shutdown, .cleanup =>
      -- `return result ? EXIT_SUCCESS : EXIT_FAILURE;`
      some (s.exit (if applicationShutdown ≠ 0 then 0 else 1), [])
  | _, _ => none

/-- A load or a store in the handler of `t`. The last one is followed by the end of the handler,
which closes `sock_server`. -/
def handlerStep (s : MainThread) (t : Nat) : HandlerPhase → MainThread × MainOut
  | .entered =>
      ({ s with handlers := s.handlers.set t (.loaded s.formats.generalLogFormat) }, [])
  | .loaded format =>
      ({ s with
        formats := { s.formats with generalLogFormatBackup := format }
        handlers := s.handlers.set t .saved }, [])
  | .saved =>
      ({ s with
        formats := { s.formats with generalLogFormat := InstalledFormat.interrupt.format }
        handlers := s.handlers.set t .bare }, [])
  | .bare =>
      ({ s with handlers := s.handlers.set t (.reloaded s.formats.generalLogFormatBackup) }, [])
  | .reloaded format =>
      ({ s with
        formats := { s.formats with generalLogFormat := format }
        handlers := s.handlers.erase t }, [.closed sockServer])

/-- A thread gets SIGINT, unless it is in its handler. -/
def enter (s : MainThread) (t : Nat) : Option MainThread :=
  if h : t ∉ s.handlers.keys then some { s with handlers := s.handlers.append t .entered h }
  else none

end MainThread

/-- One step of a process that is there. A thread in its handler does nothing else. -/
def mainStep (argv : CommandLine) (s : MainThread) : MainAct → Option (MainThread × MainOut)
  | .call c => if 0 ∈ s.handlers.keys then none else s.call argv s.phase c
  | .interrupt t =>
      if s.phase.Alive ∧ t < s.threads then (s.enter t).map fun s' => (s', []) else none
  | .handler t =>
      if s.phase.Alive then (s.handlers.get? t).map fun φ => s.handlerStep t φ else none

def mainMachine (argv : CommandLine) : Machine MainThread MainAct MainOut :=
  ⟨.start argv, mainStep argv⟩

end LinuxChat
