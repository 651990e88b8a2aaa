import Mathlib.Logic.Function.Basic
import LinuxChat.Lib.Files
import LinuxChat.Model.ThreadNames

/-!
# The log files

What `WriteMessagesToFile` and `register_thread_log_under_Name` do to the
directory, over a run of threads that start, log, register and end. A thread
id may be used again once its thread has ended; the entry it leaves in the
list of names is not removed, since no code calls `remove_Entry`. An entry is
the string its name holds, the buffer the messages below `count`. Opening a
file succeeds, and a path names the file it spells.

Each start of a thread is a session with a number of its own, and each line
carries its session and its place among all lines, so that a run can be asked
where a line is.
-/

namespace LinuxChat

open CMem Trace

/-- A message, and whose it is. -/
structure LogLine where
  /-- Its place among all lines of the run. -/
  place : Nat
  session : Nat
  thread : Nat
  text : List UInt8
  deriving DecidableEq

/-- What a log file holds. -/
inductive FileLine
  /-- What `Create_Log_File` starts a file with. -/
  | title
  | line (l : LogLine)
  deriving DecidableEq

abbrev LogPath := List UInt8

/-- The directory, the names, the buffer and the threads. -/
structure LogDir where
  files : Files LogPath FileLine
  /-- The string in the name of a thread's entry. -/
  names : Nat → Option LogPath
  pending : List LogLine
  /-- The session of a thread that has not ended. -/
  live : Nat → Option Nat
  /-- The sessions so far. -/
  sessions : Nat
  /-- The lines so far. -/
  lines : Nat

namespace LogDir

/-- An empty directory. -/
def init : LogDir := ⟨Table.empty, fun _ => none, [], fun _ => none, 0, 0⟩

/-- `thread_log_<id>.log`. -/
def threadLog (t : Nat) : LogPath :=
  Logger.fileName [lit "./logs/thread_log_", Logger.decimal t, lit ".log"]

/-- The file of a thread's messages. -/
def fileOf (names : Nat → Option LogPath) (t : Nat) : LogPath :=
  match names t with
  | some name => Logger.fileName [name]
  | none => threadLog t

/-- The routing is that of `WriteMessagesToFile` with a file for every thread. -/
theorem logFile_eq {lg : Logger} (hsep : lg.useSeparateFiles = true) (t : Nat) :
    lg.logFile t =
      (fileOf (fun t => lg.threadNames.lookup t) t, (lg.threadNames.lookup t).isNone) := by
  rw [Logger.logFile, if_pos hsep, fileOf]
  cases lg.threadNames.lookup t <;> rfl

/-- One pass of the loop of `WriteMessagesToFile`. -/
def writeMessage (names : Nat → Option LogPath) (files : Files LogPath FileLine) (l : LogLine) :
    Files LogPath FileLine :=
  let filename := fileOf names l.thread
  let files := match names l.thread with
    | some _ => files
    | none => if (files.get? filename).isSome then files else files.create filename .title
  files.appendLine filename (.line l)

/-- `WriteMessagesToFile`, and the buffer emptied. -/
def flush (s : LogDir) : LogDir :=
  { s with files := s.pending.foldl (writeMessage s.names) s.files, pending := [] }

/-- `register_thread_log_under_Name`: the entry is made or its name overwritten, and the file of
the thread renamed if it is there. -/
def register (s : LogDir) (threadID : Nat) (name : List UInt8) : LogDir :=
  let filename := threadLog threadID
  let newFilename := ThreadNames.newFilename name
  { s with
    names := Function.update s.names threadID
      (some (overlay ((s.names threadID).getD []) newFilename))
    files := s.files.rename filename newFilename }

end LogDir

inductive LogDirAct
  /-- A thread starts with this id. -/
  | start (t : Nat)
  /-- The thread logs a line, into the buffer. -/
  | log (t : Nat) (text : List UInt8)
  /-- The thread registers under a name. -/
  | register (t : Nat) (name : List UInt8)
  /-- The buffer is written out. -/
  | flush
  /-- The thread ends. -/
  | finish (t : Nat)
  deriving DecidableEq

/-- What a step shows of paths and lines. -/
inductive LogDirOut
  | quiet
  /-- A session has registered a path. -/
  | registered (session : Nat) (path : LogPath)
  /-- These lines have gone to these files. -/
  | wrote (writes : List (LogLine × LogPath))
  deriving DecidableEq

/-- One step of a thread, or a flush of the buffer by whichever thread fills it. -/
def logDirStep (s : LogDir) : LogDirAct → Option (LogDir × LogDirOut)
  | .start t =>
      match s.live t with
      | some _ => none
      | none =>
          some ({ s with
            live := Function.update s.live t (some s.sessions)
            sessions := s.sessions + 1 }, .quiet)
  | .log t text =>
      match s.live t with
      | none => none
      | some session =>
          some ({ s with
            pending := s.pending ++ [⟨s.lines, session, t, text⟩]
            lines := s.lines + 1 }, .quiet)
  | .register t name =>
      match s.live t with
      | none => none
      | some session =>
          some (s.register t name, .registered session (ThreadNames.newFilename name))
  | .flush =>
      some (s.flush, .wrote (s.pending.map fun l => (l, LogDir.fileOf s.names l.thread)))
  | .finish t =>
      match s.live t with
      | none => none
      | some _ => some ({ s with live := Function.update s.live t none }, .quiet)

/-- The threads, in any order, from an empty directory. -/
def logDirMachine : Machine LogDir LogDirAct LogDirOut := ⟨.init, logDirStep⟩

/-! ## What a history shows -/

/-- The paths registered so far, each with its session. -/
def registeredPaths (h : History LogDirAct LogDirOut) : List (Nat × LogPath) :=
  h.filterMap fun e =>
    match e.2 with
    | .registered session path => some (session, path)
    | _ => none

/-- The lines written so far. -/
def writtenLines (h : History LogDirAct LogDirOut) : List LogLine :=
  h.flatMap fun e =>
    match e.2 with
    | .wrote writes => writes.map Prod.fst
    | _ => []

end LinuxChat
