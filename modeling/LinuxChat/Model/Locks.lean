import LinuxChat.Lib.Mutex
import LinuxChat.Model.Logger
import LinuxChat.Model.Sending

/-!
# userLock and LogLock

The functions of user.c and logger.c that lock, and the six
`ITERATE_OVER_USERS` loops, step by step: every lock, every unlock, every line
that is logged in between, every `send`, every exit. Most lines are logged
while `userLock` is held, and `output_Message` takes `LogLock` for each. What a
function reads under its locks but others write without them, it reads where
the source reads it.
-/

namespace LinuxChat

open CMem Mutex.Code Trace

inductive ServerLock
  | userLock
  /-- `LogLock`. -/
  | logLock
  deriving DecidableEq, Repr

/-- What the threads share: the list from `userFront` on, logger.c's variables, and what has gone
out to the clients. -/
structure Shared where
  users : UserList
  log : Logger
  sent : List (Nat × CombinedMessage)
  deriving DecidableEq

abbrev LockCode := Mutex.Code ServerLock Shared

abbrev LockProg := Mutex.Prog ServerLock Shared

/-- What `malloc(sizeof(User))` returns in front of a list: NULL, or an address that is not in
use. -/
abbrev Malloc := (l : UserList) → Option { newUser : UserPtr // newUser ∉ l.keys }

/-- What the log lines depend on besides their arguments. -/
structure LogEnv where
  /-- `THREAD_ID`. -/
  thread : Nat
  /-- The line `log_output` makes of a level, a prefix and a message. -/
  line : LogLevel → List UInt8 → List UInt8 → List UInt8
  /-- The message `Print_message_Info` logs about a message of a known type. -/
  info : CombinedMessage → List UInt8
  /-- `ERROR_STR`. -/
  errorStr : List UInt8

/-! ## Logging -/

namespace Logger

/-- What `output_Message` does in front of `LogLock`. -/
def print (lg : Logger) (level : LogLevel) (message : List UInt8) : Logger :=
  if level.toNat ≤ lg.internalLevel.toNat then
    { lg with console := lg.console ++ [message] }
  else lg

/-- What `output_Message` does behind `LogLock`. -/
def store (lg : Logger) (level : LogLevel) (message : List UInt8) (threadID : Nat) : Logger :=
  let lg := { lg with buffer := lg.buffer.push message threadID }
  if maxBufferedMessages - 1 ≤ lg.buffer.count ∨ level.toNat < 6 - lg.logLevelForBuffer.val then
    let lg := lg.writeMessagesToFile
    { lg with buffer := { lg.buffer with count := 0 } }
  else lg

/-- Together they are the call. -/
theorem outputMessage_eq (lg : Logger) (level : LogLevel) (message : List UInt8)
    (threadID : Nat) :
    lg.outputMessage level message threadID =
      (lg.print level message).store level message threadID := rfl

end Logger

namespace Locked

/-- `output_Message`. -/
def outputMessage (level : LogLevel) (message : List UInt8) (threadID : Nat) :
    LockCode Unit := do
  change fun sh => { sh with log := sh.log.print level message }
  lock .logLock
  change fun sh => { sh with log := sh.log.store level message threadID }
  unlock .logLock

/-- `log_output`: nothing for an empty message without a prefix. -/
def logOutput (env : LogEnv) (level : LogLevel) (pre message : List UInt8) : LockCode Unit :=
  if message = [] ∧ pre = [] then pure ()
  else outputMessage level (env.line level pre message) env.thread

/-- `CL_LOG`. -/
def clLog (env : LogEnv) (level : LogLevel) (message : List UInt8) : LockCode Unit :=
  logOutput env level [] message

/-- `CL_LOG_FUNC_START`. -/
def clLogFuncStart (env : LogEnv) (message : List UInt8) : LockCode Unit :=
  logOutput env .trace (lit "START ") message

/-- `CL_LOG_FUNC_END`. -/
def clLogFuncEnd (env : LogEnv) (message : List UInt8) : LockCode Unit :=
  logOutput env .trace (lit "END ") message

open Logger (decimal)

/-! ## user.c -/

/-- `f_find_User`. -/
def findUser (env : LogEnv) (sock : Nat) : LockCode (Option UserPtr) := do
  clLogFuncStart env []
  lock .userLock
  let locFound ← reads fun sh => sh.users.findUser sock
  let locIndex ← reads fun sh => sh.users.entries.findIdx fun e => e.2.sock = sock
  clLogFuncEnd env (lit "[User socket: " ++ decimal sock ++
    if locFound.isSome then lit "] found at [index: " ++ decimal locIndex ++ lit "]"
    else lit "] NOT found")
  unlock .userLock
  pure locFound

/-- `create_User`. -/
def createUser (env : LogEnv) (malloc : Malloc) (threadID sock : Nat) :
    LockCode (Option UserPtr) := do
  clLogFuncStart env
    (lit "thread: " ++ decimal threadID ++ lit ", socket: " ++ decimal sock)
  let locFound ← findUser env sock
  if locFound.isSome then
    clLog env .error (lit "Socked already in use")
    pure none
  else
    clLog env .debug (lit "socket unique")
    lock .userLock
    let users ← reads fun sh => sh.users
    match malloc users with
    | none =>
        clLog env .error (lit "   malloc() => " ++ env.errorStr)
        -- `return NULL` with `userLock` held.
        pure none
    | some newUser =>
        clLog env .debug []
        let wasEmpty := users.entries.isEmpty
        change fun sh =>
          { sh with users := users.append newUser.1 (User.fresh threadID sock) newUser.2 }
        clLog env .trace
          (if wasEmpty then lit "   Added to list - was empty" else lit "   Added to list - at end")
        unlock .userLock
        clLogFuncEnd env []
        pure (some newUser.1)

/-- `remove_User`. -/
def removeUser (env : LogEnv) (sock : Nat) : LockCode Bool := do
  clLogFuncStart env []
  let locPointer ← findUser env sock
  match locPointer with
  | none =>
      clLog env .error (lit "User NOT found")
      pure false
  | some locPointer =>
      clLog env .debug (lit "Deleting User")
      lock .userLock
      let onlyOne ← reads fun sh => sh.users.entries.length == 1
      (if onlyOne then clLog env .trace (lit "   front == back => only one element") else pure ())
      change fun sh => { sh with users := sh.users.erase locPointer }
      unlock .userLock
      clLogFuncEnd env (lit "User found and deleted")
      pure true

/-- What an entry found under `userLock` holds by now: it is still there, but others may have
written its flags. -/
def current (e : UserPtr × User) : LockCode User :=
  reads fun sh => (sh.users.get? e.1).getD e.2

/-- The loop of `is_name_free`, which is left by `return FALSE`. -/
def compareName (env : LogEnv) (name : List UInt8) (e : UserPtr × User) : LockCode Bool := do
  clLog env .trace (lit "   User [socket: " ++ decimal e.2.sock ++ lit "] [name: " ++
    e.2.cname ++ lit "]")
  let u ← current e
  if u.cname == cstr name && u.loggedIn then
    clLog env .debug (lit "   Name already exits")
    unlock .userLock
    pure true
  else pure false

/-- `is_name_free`. The front is read before the lock: others may append entries until the loop
begins, and if they have freed the front by then, what the source does is undefined and the loop
here ends at once. -/
def isNameFree (env : LogEnv) (name : List UInt8) : LockCode Bool := do
  clLogFuncStart env (lit "[name: " ++ cstr name ++ lit "]")
  let locPointer ← reads fun sh => sh.users.entries.head?
  match locPointer with
  | none =>
      clLog env .error (lit "   List is Empty ==> ABORT")
      pure true
  | some front =>
      clLog env .debug (lit "   found valid list, starting iteration")
      lock .userLock
      let users ← reads fun sh => sh.users.entries.dropWhile fun e => e.1 ≠ front.1
      let found ← loop (compareName env name) users
      if found then pure false
      else
        unlock .userLock
        clLogFuncEnd env []
        pure true

/-- `login_User`. -/
def loginUser (env : LogEnv) (target : UserPtr) (name : List UInt8) (size : Nat) :
    LockCode Bool := do
  clLogFuncStart env (lit " Size: " ++ decimal size)
  lock .userLock
  change fun sh => { sh with users := sh.users.loginUser target name size }
  unlock .userLock
  clLogFuncEnd env []
  pure true

/-! ## logger.c -/

/-- `remove_Entry`. -/
def removeEntry (threadID : Nat) : LockCode Unit := do
  lock .logLock
  let found ← reads fun sh => (sh.log.threadNames.lookup threadID).isSome
  if found then
    change fun sh => { sh with log := { sh.log with
      threadNames := sh.log.threadNames.eraseP fun entry => entry.1 == threadID } }
    unlock .logLock
  else
    -- `return` with `LogLock` held.
    pure ()

/-! ## The loops -/

/-- `ITERATE_OVER_USERS`; whether the loop command has left the loop by `break`. -/
def iterateOverUsers (env : LogEnv) (loopCommand : UserPtr × User → LockCode Bool) :
    LockCode Bool := do
  lock .userLock
  clLog env .trace (lit "Mutex locked")
  let users ← reads fun sh => sh.users.entries
  let left ← loop loopCommand users
  unlock .userLock
  clLog env .trace (lit "Mutex unlocked")
  pure left

/-- `Print_message_Info`. -/
def printMessageInfo (env : LogEnv) (m : CombinedMessage) : LockCode Unit :=
  if m.header.type ≤ MessageType.userRemove.code then clLog env .trace (env.info m) else pure ()

/-- `send`; `ok` tells whether it succeeds. It is a step of its own, which comes when the kernel has
taken the bytes: on a blocking socket that may take as long as the client pleases. -/
def send (fd : Nat) (m : CombinedMessage) (ok : Bool) : LockCode Unit :=
  change fun sh => if ok then { sh with sent := sh.sent ++ [(fd, m)] } else sh

/-- `network_Send`. -/
def networkSend (env : LogEnv) (fd : Nat) (m : CombinedMessage) (ok : Bool) : LockCode Int := do
  clLogFuncStart env (lit "Sending to Socked: " ++ decimal fd)
  printMessageInfo env m
  send fd m ok
  if ok then
    clLog env .debug []
    clLogFuncEnd env []
    pure success
  else
    clLog env .error (lit "send() => " ++ env.errorStr)
    pure failure

/-- The lines of `build_User_Added` for an old user. -/
def logUserAdded (env : LogEnv) (now : UInt64) (u : User) : LockCode Unit := do
  clLogFuncStart env (lit "[size: " ++ decimal u.nameLength ++ lit "] [Use time: false]")
  (if now = timeError then clLog env .error (lit "   [time] " ++ env.errorStr)
    else clLog env .debug (lit "   [timestamp] valid"))
  clLog env .trace (lit "   [name size: " ++ decimal u.nameLength ++ lit "]")
  printMessageInfo env (buildUserAdded .zero now u.name.bytes u.nameLength false).msg
  clLogFuncEnd env []

/-- What a loop that sends logs about each user. -/
def logTarget (env : LogEnv) (u : User) : SendLoop → LockCode Unit
  | .broadcast _ => clLog env .trace (lit "   current target: " ++ decimal u.sock)
  | .announce .. | .departure .. | .snapshot .. => pure ()

/-- What it logs about building the message for a user it has picked. -/
def logBuild (env : LogEnv) (u : User) : SendLoop → LockCode Unit
  | .snapshot _ _ now => logUserAdded env now u
  | .broadcast _ | .announce .. | .departure .. => pure ()

/-- The loop command of a loop that sends; `ok` tells which `send` succeed. -/
def sendCommand (env : LogEnv) (ok : UserPtr → Bool) (l : SendLoop) (e : UserPtr × User) :
    LockCode Bool := do
  logTarget env e.2 l
  let u ← current e
  if l.picks (e.1, u) then
    logBuild env u l
    let _ ← networkSend env (l.call (e.1, u)).1 (l.call (e.1, u)).2 (ok e.1)
    pure false
  else pure false

/-- The loop command of `/kick`. Its `close(target->sock)` touches neither a list nor a lock. -/
def kickCommand (nameToKick : List UInt8) (e : UserPtr × User) : LockCode Bool := do
  let u ← current e
  if u.cname == nameToKick && u.loggedIn then
    change fun sh => { sh with users := sh.users.userShouldShutdown e.1 }
    pure true
  else pure false

end Locked

/-! ## Calls -/

/-- A call, or a loop from its first line to its last. -/
inductive LockCall
  | createUser (malloc : Malloc) (threadID sock : Nat)
  | removeUser (sock : Nat)
  | findUser (sock : Nat)
  | isNameFree (name : List UInt8)
  | loginUser (target : UserPtr) (name : List UInt8) (size : Nat)
  | outputMessage (level : LogLevel) (message : List UInt8) (threadID : Nat)
  | removeEntry (threadID : Nat)
  /-- The loop of the agent, of `/pause` and `/resume`, of a teardown or of a login. -/
  | sendLoop (l : SendLoop) (ok : UserPtr → Bool)
  /-- The loop of `/kick`. -/
  | kickLoop (nameToKick : List UInt8)

/-- The code of a call, its result aside. -/
def LockCall.code (env : LogEnv) : LockCall → LockCode Unit
  | createUser malloc threadID sock => do let _ ← Locked.createUser env malloc threadID sock
  | removeUser sock => do let _ ← Locked.removeUser env sock
  | findUser sock => do let _ ← Locked.findUser env sock
  | isNameFree name => do let _ ← Locked.isNameFree env name
  | loginUser target name size => do let _ ← Locked.loginUser env target name size
  | outputMessage level message threadID => Locked.outputMessage level message threadID
  | removeEntry threadID => Locked.removeEntry threadID
  | sendLoop l ok => do let _ ← Locked.iterateOverUsers env (Locked.sendCommand env ok l)
  | kickLoop nameToKick => do
      let _ ← Locked.iterateOverUsers env (Locked.kickCommand nameToKick)

/-- The call in one piece, for a thread that nobody gets in the way of. -/
def LockCall.prog (env : LogEnv) (call : LockCall) : LockProg Unit := (call.code env).run

inductive LockOut
  | returned
  /-- The thread blocks on its own lock, or unlocks what it does not hold. -/
  | fault (f : Mutex.Fault ServerLock)
  deriving DecidableEq

/-- One call, by a thread that may still hold locks. -/
def lockStep (env : LogEnv) (st : Shared × Finset ServerLock) (call : LockCall) :
    Option ((Shared × Finset ServerLock) × LockOut) :=
  match call.prog env st with
  | .ok (_, st') => some (st', .returned)
  | .error f => some (st, .fault f)

/-- The calls of one thread, from any data on, with both locks free. -/
def lockMachine (env : LogEnv) (sh : Shared) :
    Machine (Shared × Finset ServerLock) LockCall LockOut := ⟨(sh, ∅), lockStep env⟩

end LinuxChat
