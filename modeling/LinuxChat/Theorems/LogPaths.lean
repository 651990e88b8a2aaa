import LinuxChat.Lib.Path
import LinuxChat.Lib.Printf
import LinuxChat.Logic.LoginNames
import LinuxChat.Logic.NameEntries
import LinuxChat.Model.LogFiles

/-!
# Where login names lead

An accepted name becomes a part of two paths: the one its file is renamed to,
and the one in the thread's entry, behind which an earlier, longer path may
stand out. The check of a name lets `/` and `.` through. Both paths are a
`.log` file in `./logs` if and only if the name has no slash but in front, and
what stands out neither has one nor spoils the ending (`staysInLogs_iff`).
-/

namespace LinuxChat

open CMem Trace

/-- The path is `./logs` and one component that ends in `.log`: followed from any directory, it
leads into `logs` there and then to the file. -/
structure StaysInLogs (path : List UInt8) : Prop where
  component : ∃ file, Path.FileIn 47 [lit ".", lit "logs"] path file ∧ lit ".log" <:+ file
  followed : ∀ cwd, ∃ file, Path.visited 47 46 cwd path =
    [cwd, cwd, cwd ++ [lit "logs"], cwd ++ [lit "logs", file]]

/-- The name a login registers: the bytes it announces, read from `login_name` on and stored over
the name the entry had. -/
def registeredName (u : User) (f : Frame) (env : Env) : List UInt8 :=
  let size := f.announced - 5
  let mem := cstr f.name ++ List.replicate (netNameLen - (cstr f.name).length) 0 ++ env.stack
  cstr ((strncpy mem size ++ u.name.bytes.drop size).take netNameLenPlus)

/-- A name with no slash but in front, whose path lets nothing of an old one stand out that has a
slash or another ending. -/
def StaysBehind (old name : List UInt8) : Prop :=
  47 ∉ name.dropWhile (· == 47) ∧ 47 ∉ old.drop (name.length + 11) ∧
    lit ".log" <:+ lit ".log" ++ old.drop (name.length + 11)

instance (old name : List UInt8) : Decidable (StaysBehind old name) :=
  inferInstanceAs (Decidable (_ ∧ _ ∧ _))

/-! ## Paths -/

theorem components_logs : Path.components 47 (lit "./logs") = [lit ".", lit "logs"] := by decide

/-- A `.log` file of the directory is reached through it. -/
theorem staysInLogs_of_fileIn {path file : List UInt8}
    (hfile : Path.FileIn 47 [lit ".", lit "logs"] path file) (hext : lit ".log" <:+ file) :
    StaysInLogs path := by
  have hne : ∀ short : List UInt8, short.length < 4 → file ≠ short := by
    intro short hshort heq
    have hlen := hext.length_le
    rw [heq] at hlen
    exact absurd hlen (Nat.not_le.mpr hshort)
  refine ⟨⟨file, hfile, hext⟩, fun cwd => ⟨file, ?_⟩⟩
  rw [hfile.visited (hne [] (by decide)) (hne [46] (by decide)) (hne [46, 46] (by decide))]
  simp only [List.scanl_cons, List.scanl_nil, List.foldl_cons, List.foldl_nil]
  rw [show Path.enter 46 cwd (lit ".") = cwd from Path.enter_dot cwd,
    Path.enter_name cwd (c := lit "logs") (by decide) (by decide), List.append_assoc]
  rfl

/-- A name, its ending and what stands out behind it, in the directory of the logs. -/
theorem staysInLogs_append {name rest : List UInt8} :
    StaysInLogs (logPath name ++ rest) ↔ 47 ∉ name.dropWhile (· == 47) ∧ 47 ∉ rest ∧
      lit ".log" <:+ lit ".log" ++ rest := by
  have hpath : logPath name ++ rest = lit "./logs" ++ 47 :: (name ++ (lit ".log" ++ rest)) := by
    rw [logPath, show lit "./logs/" = lit "./logs" ++ [47] from rfl]
    simp only [List.append_assoc, List.cons_append, List.nil_append]
  -- The slashes in front of the name are those of the directory.
  have hdrop : (name ++ (lit ".log" ++ rest)).dropWhile (· == 47) =
      name.dropWhile (· == 47) ++ (lit ".log" ++ rest) := by
    rw [List.dropWhile_append]
    cases hslashes : name.dropWhile (· == 47) with
    | nil => rfl
    | cons b l => rfl
  have hfile : ∀ file, Path.FileIn 47 [lit ".", lit "logs"] (logPath name ++ rest) file ↔
      name.dropWhile (· == 47) ++ (lit ".log" ++ rest) = file ∧ 47 ∉ file := by
    intro file
    rw [hpath, ← components_logs, Path.fileIn_append_iff, hdrop]
  have hext : lit ".log" <:+ name.dropWhile (· == 47) ++ (lit ".log" ++ rest) ↔
      lit ".log" <:+ lit ".log" ++ rest := by
    constructor
    · intro h
      exact List.suffix_of_suffix_length_le h (List.suffix_append _ _) (by simp)
    · intro h
      exact h.trans (List.suffix_append _ _)
  have hslash : 47 ∉ name.dropWhile (· == 47) ++ (lit ".log" ++ rest) ↔
      47 ∉ name.dropWhile (· == 47) ∧ 47 ∉ rest := by
    rw [List.mem_append, List.mem_append, not_or, not_or,
      and_iff_right (show 47 ∉ lit ".log" by decide)]
  rw [← and_assoc, ← hslash, ← hext]
  constructor
  · intro h
    obtain ⟨file, hin, hends⟩ := h.component
    obtain ⟨rfl, hno⟩ := (hfile file).mp hin
    exact ⟨hno, hends⟩
  · rintro ⟨hno, hends⟩
    exact staysInLogs_of_fileIn ((hfile _).mpr ⟨rfl, hno⟩) hends

theorem staysInLogs_logPath {name : List UInt8} :
    StaysInLogs (logPath name) ↔ 47 ∉ name.dropWhile (· == 47) := by
  rw [← List.append_nil (logPath name), staysInLogs_append, List.append_nil]
  exact and_iff_left ⟨List.not_mem_nil, List.suffix_rfl⟩

/-- A digit is no slash. -/
theorem slash_notMem_decimal (n : Nat) : 47 ∉ Logger.decimal n := by
  intro h
  have hdigit := Printf.numberByte_of_mem_numeral h
  exact absurd hdigit (by decide)

/-- The file of a thread without an entry. -/
theorem staysInLogs_threadLog {t : Nat} (ht : t < UInt64.size) :
    StaysInLogs (LogDir.threadLog t) := by
  have hlen : (Logger.decimal t).length ≤ 20 := by
    apply (Printf.length_numeral_le_iff (by decide) (by decide)).mpr
    exact ht.trans (by decide)
  have hpath : LogDir.threadLog t = logPath (lit "thread_log_" ++ Logger.decimal t) := by
    have hparts : [lit "./logs/thread_log_", Logger.decimal t, lit ".log"].flatten =
        logPath (lit "thread_log_" ++ Logger.decimal t) := by
      rw [logPath, show lit "./logs/thread_log_" = lit "./logs/" ++ lit "thread_log_" from rfl]
      simp only [List.flatten_cons, List.flatten_nil, List.append_nil, List.append_assoc]
    rw [LogDir.threadLog, Logger.fileName, hparts]
    apply List.take_of_length_le
    rw [length_logPath, List.length_append]
    show 11 + (Logger.decimal t).length + 11 ≤ 255
    omega
  rw [hpath, staysInLogs_logPath]
  intro hslash
  rcases List.mem_append.mp ((List.dropWhile_sublist _).subset hslash) with hmem | hmem
  · exact absurd hmem (by decide)
  · exact slash_notMem_decimal t hmem

/-! ## Names -/

/-- The name is the one the entry has after the login. -/
theorem cname_eq_registeredName {f : Frame} (hcode : f.code = .receivedLogin) (u : User)
    (env : Env) : (loggedInAs u f env).cname = registeredName u f env := by
  rw [loggedInAs, Frame.loginMem_eq hcode, Frame.loginSize_eq hcode, User.cname, User.login,
    Buf.bytes_write_front, length_strncpy]
  rfl

/-- A registered name is no longer than the array it is stored in. -/
theorem length_registeredName_le (u : User) (f : Frame) (env : Env) :
    (registeredName u f env).length ≤ netNameLenPlus :=
  le_trans (length_cstr_le _) (List.length_take_le _ _)

/-- An accepted login registers its name. -/
theorem registered_of_accepted {cfg : Config} {sv sv' : Server} {p : UserPtr} {u : User}
    {f : Frame} {env : Env} {r : Handled} {thread : Nat} {name : List UInt8}
    (hu : sv.users.get? p = some u)
    (hstep : frameStep cfg sv (.frame p f env) = some (sv', r))
    (hanswer : answeredSuccess r = true) (hreg : .registerLog thread name ∈ r.out) :
    name = registeredName u f env := by
  obtain ⟨hcode, hresp⟩ := (answeredSuccess_iff hstep).mp hanswer
  obtain ⟨v, hv, rfl, rfl⟩ := frameStep_frame hstep
  rw [hu, Option.some.injEq] at hv
  subst hv
  rcases mem_out_frame hreg with hx | hx | hx
  · cases hx
  · cases hx
  · rw [hcode, handleFrame_login, if_pos hresp] at hx
    rw [← cname_eq_registeredName hcode]
    simp only [loginAccepted, List.mem_cons, List.mem_map] at hx
    rcases hx with hx | hx | hx | ⟨o, -, hx⟩
    · cases hx
    · cases hx
      rfl
    · cases hx
    · cases hx

/-- **Where an accepted name leads.** For every login answered with `LR_success` and whatever the
list of thread names, the path its file is renamed to and the one its lines are then appended to
both are a `.log` file in `./logs` if and only if the name has no slash but in front, and the
part of an older, longer path that stands out behind it neither has one nor spoils the ending. -/
theorem staysInLogs_iff {cfg : Config} {sv sv' : Server} {p : UserPtr} {u : User} {f : Frame}
    {env : Env} {r : Handled} {thread : Nat} {name : List UInt8}
    {calls : History ThreadNameAct ThreadNameOut} {list list' : ThreadNames}
    {malloc : Option EntryPtr} {ret : ThreadNameOut}
    (hu : sv.users.get? p = some u)
    (hstep : frameStep cfg sv (.frame p f env) = some (sv', r))
    (hanswer : answeredSuccess r = true) (hreg : .registerLog thread name ∈ r.out)
    (hthread : thread < UInt64.size) (hrun : Run threadNameMachine anyStep calls list)
    (hcall : threadNameStep list (.register malloc thread name) = some (list', ret)) :
    StaysInLogs (ThreadNames.newFilename name) ∧ StaysInLogs (LogDir.fileOf list'.pathOf thread) ↔
      StaysBehind ((list.pathOf thread).getD []) (registeredName u f env) := by
  obtain rfl := registered_of_accepted hu hstep hanswer hreg
  have hnul : cstr (registeredName u f env) = registeredName u f env := cstr_cstr _
  have hlen := length_registeredName_le u f env
  generalize registeredName u f env = name at hnul hlen hcall ⊢
  have hnew : ThreadNames.newFilename name = logPath name := by
    rw [newFilename_eq, hnul]
    rw [hnul, length_logPath]
    exact le_trans (Nat.add_le_add_right hlen 11) (by decide)
  rw [hnew, staysInLogs_logPath]
  by_cases hroom : malloc.isSome = true ∨ (list.pathOf thread).isSome = true
  · have hpath : list'.pathOf thread =
        some (logPath name ++ ((list.pathOf thread).getD []).drop (name.length + 11)) := by
      rw [pathOf_register hrun hcall hroom, Function.update_self, hnew, overlay, length_logPath]
    -- The path has no more than 255 bytes, so `snprintf` takes all of it.
    have hfit := length_pathOf_le (.step hrun trivial hcall) hpath
    have hfile : LogDir.fileOf list'.pathOf thread =
        logPath name ++ ((list.pathOf thread).getD []).drop (name.length + 11) := by
      rw [LogDir.fileOf, hpath]
      simp only [Logger.fileName, List.flatten_singleton]
      exact List.take_of_length_le hfit
    rw [hfile, staysInLogs_append]
    exact and_iff_right_of_imp And.left
  · -- No entry is made, and the lines go to the thread's own file.
    rw [not_or, Option.not_isSome_iff_eq_none, Option.not_isSome_iff_eq_none] at hroom
    obtain ⟨rfl, hnone⟩ := hroom
    have hfile : LogDir.fileOf list'.pathOf thread = LogDir.threadLog thread := by
      rw [LogDir.fileOf, pathOf_register_none hrun hcall hnone]
    rw [hfile, hnone, Option.getD_none, and_iff_left (staysInLogs_threadLog hthread)]
    exact (and_iff_left ⟨List.not_mem_nil, List.suffix_rfl⟩).symm

/-- `bob` becomes `alice`: the longer path hides the one in the entry. -/
theorem staysInLogs_alice :
    ∃ sv sv' u r list list' ret, sv.users.get? 1 = some u ∧ u.cname = lit "bob" ∧
      frameStep .default sv (.frame 1 (.login 10 (lit "alice")) ⟨1, 0, [], []⟩) = some (sv', r) ∧
      list.pathOf 1 = some (lit "./logs/bob.log") ∧
      threadNameStep list (.register none 1 (lit "alice")) = some (list', ret) ∧
      StaysInLogs (ThreadNames.newFilename (lit "alice")) ∧
      StaysInLogs (LogDir.fileOf list'.pathOf 1) := by
  obtain ⟨-, sv, sv', r, -, -, hstep, hP⟩ := Run.exists_step_of_replay
    (M := frameMachine .default) (G := anyStep)
    [.connect 1 1 5, .frame 1 (.login 8 (lit "bob")) ⟨1, 0, [], []⟩]
    (.frame 1 (.login 10 (lit "alice")) ⟨1, 0, [], []⟩)
    (fun _ sv _ r => answeredSuccess r && decide (.registerLog 1 (lit "alice") ∈ r.out) &&
      (sv.users.get? 1).any fun u : User => u.cname == lit "bob" &&
        decide (StaysBehind (lit "./logs/bob.log")
          (registeredName u (.login 10 (lit "alice")) ⟨1, 0, [], []⟩))) (by decide +kernel)
  obtain ⟨calls, list, list', ret, hrun, -, hcall, hQ⟩ := Run.exists_step_of_replay
    (M := threadNameMachine) (G := anyStep) [.register (some 10) 1 (lit "bob")]
    (.register none 1 (lit "alice"))
    (fun _ list _ _ => decide (list.pathOf 1 = some (lit "./logs/bob.log"))) (by decide +kernel)
  rw [Bool.and_eq_true, Bool.and_eq_true, decide_eq_true_eq, Option.any_eq_true] at hP
  obtain ⟨⟨hanswer, hreg⟩, u, hu, hname⟩ := hP
  rw [Bool.and_eq_true, beq_iff_eq, decide_eq_true_eq] at hname
  have hpath := of_decide_eq_true hQ
  have hcall' : threadNameStep list (.register none 1 (lit "alice")) = some (list', ret) := hcall
  have hstays := (staysInLogs_iff hu hstep hanswer hreg (by decide) hrun hcall').mpr
    (by rw [hpath]; exact hname.2)
  exact ⟨sv, sv', u, r, list, list', ret, hu, hname.1, hstep, hpath, hcall, hstays⟩

/-- A client logs in as `../x` with `LR_success`: its file is renamed out of the directory. -/
theorem login_leaves_logs :
    ∃ h sv sv' r, Run (frameMachine .default) anyStep h sv ∧
      frameStep .default sv (.frame 1 (.login 9 (lit "../x")) ⟨1, 0, [], []⟩) = some (sv', r) ∧
      answeredSuccess r = true ∧ .registerLog 1 (lit "../x") ∈ r.out ∧
      ThreadNames.newFilename (lit "../x") = lit "./logs/../x.log" ∧
      (∀ cwd, Path.visited 47 46 cwd (lit "./logs/../x.log") =
        [cwd, cwd, cwd ++ [lit "logs"], cwd, cwd ++ [lit "x.log"]]) ∧
      ¬ StaysInLogs (ThreadNames.newFilename (lit "../x")) := by
  obtain ⟨h, sv, sv', r, hrun, -, hstep, hP⟩ := Run.exists_step_of_replay
    (M := frameMachine .default) (G := anyStep) [.connect 1 1 5]
    (.frame 1 (.login 9 (lit "../x")) ⟨1, 0, [], []⟩)
    (fun _ _ _ r => answeredSuccess r && decide (.registerLog 1 (lit "../x") ∈ r.out))
    (by decide +kernel)
  rw [Bool.and_eq_true, decide_eq_true_eq] at hP
  refine ⟨h, sv, sv', r, hrun, hstep, hP.1, hP.2, by decide, ?_, ?_⟩
  · intro cwd
    have hparts : Path.components 47 (lit "./logs/../x.log") =
        [lit ".", lit "logs", lit "..", lit "x.log"] := by decide
    have hup : Path.enter 46 (cwd ++ [lit "logs"]) (lit "..") = cwd := Path.enter_dots cwd _
    rw [Path.visited, hparts]
    simp only [List.scanl_cons, List.scanl_nil]
    rw [show Path.enter 46 cwd (lit ".") = cwd from Path.enter_dot cwd,
      Path.enter_name cwd (c := lit "logs") (by decide) (by decide), hup,
      Path.enter_name cwd (c := lit "x.log") (by decide) (by decide)]
  · rw [show ThreadNames.newFilename (lit "../x") = logPath (lit "../x") by decide,
      staysInLogs_logPath]
    decide

end LinuxChat
