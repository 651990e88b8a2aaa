import LinuxChat.Lib.Threads
import LinuxChat.Model.Locks
import LinuxChat.Model.LogFiles

/-!
# userLock and LogLock among threads

The functions of `Locked` for threads that run at the same time, the functions
that write the list of users or the log without a lock, and the signal handler
of application.c, which logs in the middle of whatever the interrupted thread
is doing. A thread waits where it is about to lock what is taken; a signal
finds it between any two steps. What `output_Message` does behind its lock is
one step.
-/

namespace LinuxChat

open CMem Mutex.Code Trace

namespace Logger

/-- The write of `add_Thread_Name_Mapping`: the name of an entry that is there is overwritten
without a terminator. -/
def setThreadName (lg : Logger) (threadID : Nat) (path : List UInt8) : Logger :=
  { lg with threadNames :=
      if (lg.threadNames.lookup threadID).isSome then
        lg.threadNames.map fun e => if e.1 = threadID then (e.1, overlay e.2 path) else e
      else lg.threadNames ++ [(threadID, path)] }

/-- `rename(filename, newFilename)`: what was at the new path is gone. -/
def rename (lg : Logger) (filename newFilename : List UInt8) : Logger :=
  { lg with files := (lg.files.filter fun f => f ≠ filename ∧ f ≠ newFilename) ++ [newFilename] }

/-- The pass of `WriteMessagesToFile` for slot `x`. -/
def writeSlot (lg : Logger) (x : Fin maxBufferedMessages) : Logger :=
  lg.writeMessage (lg.buffer.messages.get (x.cast lg.buffer.length_messages.symm))

end Logger

namespace Locked

open Logger (decimal)

/-! ## Without a lock -/

/-- `logout_user`. -/
def logoutUser (target : UserPtr) : LockCode Unit :=
  change fun sh => { sh with users := sh.users.logoutUser target }

/-- `user_should_shutdown`. -/
def userShouldShutdown (target : UserPtr) : LockCode Unit :=
  change fun sh => { sh with users := sh.users.userShouldShutdown target }

/-- `register_thread_log_under_Name`; `malloc` tells whether there is memory for a new entry. -/
def registerThreadLogUnderName (malloc : Bool) (threadID : Nat) (name : List UInt8) :
    LockCode Unit := do
  let locFound ← reads fun sh => (sh.log.threadNames.lookup threadID).isSome
  (if locFound || malloc then
    change fun sh =>
      { sh with log := sh.log.setThreadName threadID (ThreadNames.newFilename name) }
  else pure ())
  let there ← reads fun sh => sh.log.files.contains (LogDir.threadLog threadID)
  if there then
    change fun sh => { sh with
      log := sh.log.rename (LogDir.threadLog threadID) (ThreadNames.newFilename name) }
  else pure ()

/-- One pass of the loop of `WriteMessagesToFile`, which is left where the count, read anew, is
reached. -/
def writeSlot (x : Fin maxBufferedMessages) : LockCode Bool := do
  let count ← reads fun sh => sh.log.buffer.count
  if x.val < count then
    change fun sh => { sh with log := sh.log.writeSlot x }
    pure false
  else pure true

/-- `log_shutdown`: only its own line is under `LogLock`. -/
def logShutdown (env : LogEnv) : LockCode Unit := do
  clLog env .trace (lit "Shutdown")
  let _ ← loop writeSlot (List.finRange maxBufferedMessages)

/-! ## application.c -/

/-- `separator`. -/
def separator : List UInt8 := List.replicate 103 0x2d ++ [0x0a]

/-- `sigint_Handler`, through `connection_handler_shutdown`. The first line is logged with the
format `$C`, which is the message alone. -/
def sigintHandler (env : LogEnv) : LockCode Unit := do
  outputMessage .trace [0x08, 0x0d] env.thread
  outputMessage .trace separator env.thread
  clLog env .warn (lit "Detected Shutdown signal: " ++ decimal 2)
  clLog env .info (lit "Shutting down SubSystems")
  clLog env .trace (lit "shutdown")

end Locked

/-! ## The threads -/

/-- What a running server calls. -/
inductive ServerCall
  | locking (call : LockCall)
  | logoutUser (target : UserPtr)
  | userShouldShutdown (target : UserPtr)
  | registerThreadLogUnderName (malloc : Bool) (threadID : Nat) (name : List UInt8)
  | logShutdown

def ServerCall.code (env : LogEnv) : ServerCall → LockCode Unit
  | locking call => call.code env
  | logoutUser target => Locked.logoutUser target
  | userShouldShutdown target => Locked.userShouldShutdown target
  | registerThreadLogUnderName malloc threadID name =>
      Locked.registerThreadLogUnderName malloc threadID name
  | logShutdown => Locked.logShutdown env

/-- The server's threads and its two locks. -/
abbrev LockThreads (n : Nat) := Mutex.Threads (Fin n) ServerLock Shared

abbrev LockThreadsAct (n : Nat) := Mutex.ThreadsAct (Fin n) (LogEnv × ServerCall) LogEnv

/-- Any number of threads that make calls, and are interrupted by SIGINT. -/
def lockThreads (n : Nat) (sh : Shared) : Machine (LockThreads n) (LockThreadsAct n) Unit :=
  Mutex.threadsMachine (fun c : LogEnv × ServerCall => c.2.code c.1) Locked.sigintHandler sh

end LinuxChat
