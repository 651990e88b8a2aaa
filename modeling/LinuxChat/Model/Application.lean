import LinuxChat.Model.Defines

/-!
# Server commands

The command table of `application.c`, the scan for the first word of a
command text, and the scan for the argument of `/kick`. Both scans are
`sscanf` calls: white space in the format skips any run of white space, a
conversion fails on an empty match, and a width cuts the match short.
-/

namespace LinuxChat

open CMem

/-- `admin_command_code`. -/
inductive AdminCommandCode
  | kick
  | pause
  | resume
  | shutdown
  | help
  | noValidCommand
  deriving DecidableEq, Repr

/-- `AC_Command_Data`. -/
structure ACCommandData where
  command : List UInt8
  syntaxWord : List UInt8
  description : List UInt8
  code : AdminCommandCode
  deriving DecidableEq

/-- `All_Admin_Commands_Data`. -/
def allAdminCommandsData : List ACCommandData :=
  [⟨lit "kick", lit "/kick", lit "Kick a user from the chat", .kick⟩,
   ⟨lit "pause", lit "/pause", lit "Pause new incoming messages", .pause⟩,
   ⟨lit "resume", lit "/resume", lit "Resume receiving incoming messages", .resume⟩,
   ⟨lit "shutdown", lit "/shutdown", lit "Disconnect all clients and shutdown the server",
     .shutdown⟩,
   ⟨lit "help", lit "/help", lit "Display a list of available commands and their usage", .help⟩]

/-- `isspace` in the C locale. -/
def isSpace (c : UInt8) : Bool := c == 32 || (9 ≤ c && c ≤ 13)

/-- A white-space directive. -/
def skipSpace (s : List UInt8) : List UInt8 := s.dropWhile isSpace

/-- `%<width>s`: the word that follows the white space, cut to `width` bytes. -/
def scanWord (width : Nat) (s : List UInt8) : Option (List UInt8) :=
  let word := ((skipSpace s).takeWhile (!isSpace ·)).take width
  if word = [] then none else some word

/-- `%*s`: what is left behind the first word; fails if there is none. -/
def skipWord (s : List UInt8) : Option (List UInt8) :=
  if skipSpace s = [] then none else some ((skipSpace s).dropWhile (!isSpace ·))

/-- `%<width>[^\n]`: the rest of the line, cut to `width` bytes. -/
def scanLine (width : Nat) (s : List UInt8) : Option (List UInt8) :=
  let line := (s.takeWhile (· != 10)).take width
  if line = [] then none else some line

/-- `get_server_command` on the C string `command`. -/
def getServerCommand (command : List UInt8) : AdminCommandCode :=
  match scanWord 31 command with
  | none => .noValidCommand
  | some firstWord =>
      match allAdminCommandsData.find? fun row => firstWord = row.syntaxWord with
      | none => .noValidCommand
      | some row => row.code

/-- `sscanf(text, "%*s %31[^\n]", name_to_kick)`; `none` leaves `name_to_kick` as it was. -/
def scanKick (text : List UInt8) : Option (List UInt8) :=
  (skipWord text).bind fun rest => scanLine 31 (skipSpace rest)

/-- The argument of `/kick` has at most 31 bytes. -/
theorem length_scanKick {text arg : List UInt8} (h : scanKick text = some arg) :
    arg.length ≤ 31 := by
  obtain ⟨rest, -, hline⟩ := Option.bind_eq_some_iff.mp h
  simp only [scanLine] at hline
  split at hline
  · cases hline
  · cases hline
    exact List.length_take_le _ _

end LinuxChat
