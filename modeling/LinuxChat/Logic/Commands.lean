import LinuxChat.Logic.FrameStep

/-!
# What a command comes to

The first word of a command against the table, for a word of any length, and
the switch as a lookup: the case that belongs to a code, or the default. What
a pass does with a command of the administrator follows from the two
(`pass_command`).
-/

namespace LinuxChat

open CMem

/-- The first word of a text, in full. -/
def firstWord (text : List UInt8) : List UInt8 := (skipSpace text).takeWhile (!isSpace ·)

/-- The words of the table are too short for the width of the scan to matter. -/
theorem length_syntaxWord {row : ACCommandData} (hrow : row ∈ allAdminCommandsData) :
    0 < row.syntaxWord.length ∧ row.syntaxWord.length < 31 := by
  revert row
  decide

/-- A word that is cut to a shorter one was not longer. -/
theorem take_eq_iff_of_length_lt {w k : List UInt8} {n : Nat} (hk : k.length < n) :
    w.take n = k ↔ w = k := by
  constructor
  · intro htake
    have hlen : min n w.length = k.length := by rw [← htake, List.length_take]
    rw [← htake, List.take_of_length_le (by omega)]
  · rintro rfl
    exact List.take_of_length_le hk.le

/-- `get_server_command` looks the first word up in full. -/
theorem getServerCommand_eq (text : List UInt8) : getServerCommand text =
    match allAdminCommandsData.find? fun row => firstWord text = row.syntaxWord with
    | none => .noValidCommand
    | some row => row.code := by
  have hcut : (allAdminCommandsData.find? fun row => (firstWord text).take 31 = row.syntaxWord) =
      allAdminCommandsData.find? fun row => firstWord text = row.syntaxWord := by
    refine List.find?_congr fun row hrow => ?_
    rw [decide_eq_decide]
    exact take_eq_iff_of_length_lt (length_syntaxWord hrow).2
  rw [← hcut, getServerCommand]
  by_cases hword : (firstWord text).take 31 = []
  · -- Without a word the scan fails; no row has an empty word either.
    have hscan : scanWord 31 text = none := if_pos hword
    have hnone : (allAdminCommandsData.find? fun row => ([] : List UInt8) = row.syntaxWord) =
        none := by decide
    rw [hscan, hword, hnone]
  · have hscan : scanWord 31 text = some ((firstWord text).take 31) := if_neg hword
    rewrite [hscan]
    rfl

variable {cfg : Config} {sv sv' : Server} {p : UserPtr} {u : User} {f : Frame} {env : Env}
  {r : Handled}

/-- The case of the switch that belongs to a code. -/
def switchCase (cfg : Config) (env : Env) (u : User) (sv : Server) (m : CombinedMessage) :
    AdminCommandCode → Option Handled
  | .kick => some (handleKick cfg env u sv m)
  | .pause => some (handlePause cfg env u sv m)
  | .resume => some (handleResume cfg env u sv m)
  | .help => some (handleHelp env u sv m)
  | .shutdown | .noValidCommand => none

/-- The `default` case of the switch over the commands. -/
def invalidCommand (cfg : Config) (env : Env) (u : User) (sv : Server) (m : CombinedMessage) :
    Handled :=
  replyOnly cfg env u sv m (lit "Caution! detected invalid [server_commands] " ++ cstr m.body.bytes)

theorem handleCommand_admin (hadmin : u.cname = cfg.adminName.bytes) (m : CombinedMessage) :
    handleCommand cfg env u sv m =
      (switchCase cfg env u sv m (getServerCommand (cstr m.body.bytes))).getD
        (invalidCommand cfg env u sv m) := by
  rw [handleCommand, if_pos hadmin]
  cases getServerCommand (cstr m.body.bytes) <;> rfl

/-- A pass with a command: the two calls, and what the switch does. -/
theorem pass_command (hcmd : f.IsCommand) :
    (clientPass cfg env p u sv f.received).server = (handleCommand cfg env u sv f.msg).server ∧
      (clientPass cfg env p u sv f.received).out =
        .recv u.sock :: .read u.sock :: (handleCommand cfg env u sv f.msg).out := by
  have hcode : f.code = .receivedServerCommand := Frame.code_eq_receivedServerCommand.mpr hcmd
  have hread : readsBody f.msg.header = true := hcmd.1.readsBody
  rw [f.received_eq, hcode]
  simp only [clientPass, handleFrame, hread, if_true]
  exact ⟨trivial, rfl⟩

end LinuxChat
