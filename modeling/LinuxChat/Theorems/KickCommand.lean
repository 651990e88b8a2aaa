import LinuxChat.Logic.Commands

/-!
# Whom a kick hits

`/kick` scans its argument into an array of 31 bytes that nothing has written
before, and looks for a logged-in user of that name. It hits the named user
and nobody else if the line has an argument of at most 31 bytes, or nobody is
logged in under what the scan has left in the array (`kicksExactly_iff`).
-/

namespace LinuxChat

open CMem Trace

/-- What follows the first word of a text up to the end of the line, blanks before it aside. -/
def lineArgument (text : List UInt8) : Option (List UInt8) :=
  (skipWord text).bind fun rest =>
    let arg := skipSpace (rest.takeWhile (· != 10))
    if arg = [] then none else some arg

/-- The first line behind the command word that has something on it. -/
def laterLine (text : List UInt8) : Option (List UInt8) :=
  (skipWord text).bind fun rest =>
    let line := (skipSpace rest).takeWhile (· != 10)
    if line = [] then none else some line

/-- The names in use, in list order. -/
def loginNames (l : UserList) : List (List UInt8) :=
  (l.entries.filter fun e => e.2.loggedIn).map fun e => e.2.cname

/-- Logged-in users have different names. -/
def DistinctNames (l : UserList) : Prop :=
  ∀ p q u v, l.get? p = some u → l.get? q = some v → u.loggedIn = true → v.loggedIn = true →
    u.cname = v.cname → p = q

/-- The kick closes and flags exactly the logged-in user whose name is the argument; if there
is none, it touches nobody and says so. -/
structure KicksExactly (cfg : Config) (sv sv' : Server) (u : User) (f : Frame) (env : Env)
    (r : Handled) : Prop where
  hits : ∀ q v, sv.users.get? q = some v → v.loggedIn = true →
    lineArgument (cstr f.msg.body.bytes) = some v.cname →
    .kick q v.sock ∈ r.out ∧ sv'.users.get? q = some v.flag
  spares : ∀ q v, sv.users.get? q = some v →
    ¬ (v.loggedIn = true ∧ lineArgument (cstr f.msg.body.bytes) = some v.cname) →
    (∀ fd, .kick q fd ∉ r.out) ∧ sv'.users.get? q = some v
  nobody : (∀ q v, sv.users.get? q = some v → v.loggedIn = true →
      lineArgument (cstr f.msg.body.bytes) ≠ some v.cname) →
    sv'.users = sv.users ∧ ∃ name, r.out = [.recv u.sock, .read u.sock, .reply u.sock
      (buildServerResponse cfg f.msg env.now
        (lit "[name: " ++ name ++ lit "] is not in user list"))]

/-- The argument fits, or neither it nor its first 31 bytes are anybody's name; behind a command
without an argument, nobody has the first 31 bytes of a later line as name or, without such a
line, what `name_to_kick` held before. -/
def ScanReadsArgument (l : UserList) (text leftover : List UInt8) : Prop :=
  match lineArgument text with
  | some arg => arg.length ≤ 31 ∨ (l.isNameFree arg = true ∧ l.isNameFree (arg.take 31) = true)
  | none => l.isNameFree (((laterLine text).map (·.take 31)).getD leftover) = true

/-! ## The scan -/

/-- Blanks in front of a line that is not blank can be skipped before the line is cut. -/
theorem takeWhile_skipSpace {s : List UInt8} (h : skipSpace (s.takeWhile (· != 10)) ≠ []) :
    (skipSpace s).takeWhile (· != 10) = skipSpace (s.takeWhile (· != 10)) := by
  induction s with
  | nil => rfl
  | cons c s ih =>
      by_cases hline : c = 10
      · -- The line ends before anything was found on it.
        subst hline
        exact absurd rfl h
      · have htake : (c :: s).takeWhile (· != 10) = c :: s.takeWhile (· != 10) := by simp [hline]
        rw [htake] at h ⊢
        unfold skipSpace at h ih ⊢
        by_cases hspace : isSpace c = true
        · rw [List.dropWhile_cons_of_pos hspace] at h ⊢
          rw [List.dropWhile_cons_of_pos hspace]
          exact ih h
        · rw [List.dropWhile_cons_of_neg hspace, List.dropWhile_cons_of_neg hspace, htake]

/-- The scan does not stop at the end of the command's line. -/
theorem scanKick_eq (text : List UInt8) : scanKick text = (laterLine text).map (·.take 31) := by
  unfold scanKick laterLine
  cases hrest : skipWord text with
  | none => rfl
  | some rest =>
      simp only [Option.bind_some, scanLine]
      by_cases hline : (skipSpace rest).takeWhile (· != 10) = []
      · rw [if_pos hline, hline]
        rfl
      · have hcut : ((skipSpace rest).takeWhile (· != 10)).take 31 ≠ [] := fun hnil =>
          hline ((List.take_eq_nil_iff.mp hnil).resolve_left (by decide))
        rw [if_neg hline, if_neg hcut, Option.map_some]

/-- An argument on the line is read, up to its 31st byte. -/
theorem scanKick_of_lineArgument {text arg : List UInt8} (h : lineArgument text = some arg) :
    scanKick text = some (arg.take 31) := by
  obtain ⟨rest, hrest, hline⟩ := Option.bind_eq_some_iff.mp h
  simp only at hline
  split at hline
  · cases hline
  · rename_i hne
    cases hline
    rw [scanKick_eq, laterLine, hrest, Option.bind_some]
    simp only [takeWhile_skipSpace hne, if_neg hne, Option.map_some]

/-- The argument of a C string is one. -/
theorem zero_notMem_lineArgument {text arg : List UInt8} (hnul : 0 ∉ text)
    (h : lineArgument text = some arg) : 0 ∉ arg := by
  obtain ⟨rest, hrest, hline⟩ := Option.bind_eq_some_iff.mp h
  simp only at hline
  split at hline
  · cases hline
  · cases hline
    intro hzero
    refine hnul ?_
    have hsub : ∀ {a : UInt8}, a ∈ rest → a ∈ text := by
      intro a ha
      simp only [skipWord] at hrest
      split at hrest
      · cases hrest
      · cases hrest
        exact List.dropWhile_subset _ (List.dropWhile_subset _ ha)
    exact hsub (List.takeWhile_subset _ (List.dropWhile_subset _ hzero))

/-! ## The target -/

variable {l : UserList} {name : List UInt8} {q : UserPtr} {v : User}

theorem kickTarget_eq_some (h : kickTarget l name = some (q, v)) :
    l.get? q = some v ∧ v.loggedIn = true ∧ v.cname = name := by
  have hfound := List.find?_some h
  rw [Bool.and_eq_true, beq_iff_eq] at hfound
  exact ⟨Table.get?_eq_some_iff.mpr (List.mem_of_find?_eq_some h), hfound.2, hfound.1⟩

/-- Nobody is found under a name that is free. -/
theorem kickTarget_eq_none : kickTarget l (cstr name) = none ↔ l.isNameFree name = true := by
  rw [UserList.isNameFree_iff, kickTarget, List.find?_eq_none]
  simp only [Bool.and_eq_true, beq_iff_eq, not_and, Prod.forall, ← Table.get?_eq_some_iff]
  exact ⟨fun h p u hu hin hname => h p u hu hname hin, fun h p u hu hname hin => h p u hu hin hname⟩

/-- Distinct names make a table of distinct names. -/
theorem distinctNames_of_nodup (hl : (loginNames l).Nodup) : DistinctNames l := by
  intro p q u v hu hv hin hin' hname
  have hmem : (p, u) ∈ l.entries.filter fun e => e.2.loggedIn :=
    List.mem_filter.mpr ⟨Table.get?_eq_some_iff.mp hu, hin⟩
  have hmem' : (q, v) ∈ l.entries.filter fun e => e.2.loggedIn :=
    List.mem_filter.mpr ⟨Table.get?_eq_some_iff.mp hv, hin'⟩
  exact congrArg Prod.fst (List.inj_on_of_nodup_map hl hmem hmem' hname)

/-- Where names are distinct, a logged-in user is the target of its name. -/
theorem DistinctNames.kickTarget (hl : DistinctNames l) (hv : l.get? q = some v)
    (hin : v.loggedIn = true) : LinuxChat.kickTarget l v.cname = some (q, v) := by
  cases ht : LinuxChat.kickTarget l v.cname with
  | none =>
      have hself := List.find?_eq_none.mp ht (q, v) (Table.get?_eq_some_iff.mp hv)
      simp [hin] at hself
  | some e =>
      obtain ⟨t, w⟩ := e
      obtain ⟨hw, hwin, hname⟩ := kickTarget_eq_some ht
      have hqt : t = q := hl t q w v hw hv hwin hin hname
      subst hqt
      rw [hw, Option.some.injEq] at hv
      rw [hv]

/-- The scan finds the target of the argument just where it reads the argument or nobody. -/
theorem kickTarget_scan {text leftover : List UInt8} (hnul : 0 ∉ text) :
    kickTarget l (cstr ((scanKick text).getD leftover)) =
        (lineArgument text).bind (kickTarget l) ↔ ScanReadsArgument l text leftover := by
  unfold ScanReadsArgument
  cases harg : lineArgument text with
  | none =>
      rw [scanKick_eq]
      exact kickTarget_eq_none
  | some arg =>
      have hzero : 0 ∉ arg := zero_notMem_lineArgument hnul harg
      have hwhole : cstr arg = arg := cstr_eq_self hzero
      have hcut : cstr (arg.take 31) = arg.take 31 :=
        cstr_eq_self fun hmem => hzero (List.mem_of_mem_take hmem)
      simp only [scanKick_of_lineArgument harg, Option.getD_some, Option.bind_some]
      rw [← kickTarget_eq_none, ← kickTarget_eq_none, hwhole, hcut]
      constructor
      · intro htarget
        rcases Nat.lt_or_ge 31 arg.length with hlong | hshort
        · -- Nobody has both the whole name and the cut one.
          refine .inr ?_
          cases hfound : kickTarget l arg with
          | none => exact ⟨rfl, htarget.trans hfound⟩
          | some e =>
              have hname := (kickTarget_eq_some hfound).2.2
              have hname' := (kickTarget_eq_some (htarget.trans hfound)).2.2
              have hlen := congrArg List.length (hname.symm.trans hname')
              rw [List.length_take] at hlen
              omega
        · exact .inl hshort
      · rintro (hshort | ⟨hfree, hfree'⟩)
        · rw [List.take_of_length_le hshort]
        · rw [hfree, hfree']

/-! ## The kick -/

variable {cfg : Config} {sv sv' : Server} {p : UserPtr} {u : User} {f : Frame} {env : Env}
  {r : Handled}

/-- A kick that finds nobody is right where the argument names nobody. -/
theorem kicksExactly_of_miss {handled : Handled}
    (hhandled : handled = handleKick cfg env u sv f.msg) (hdistinct : DistinctNames sv.users)
    (hserver : sv' = handled.server) (hout : r.out = .recv u.sock :: .read u.sock :: handled.out)
    (htarget : kickTarget sv.users (kickName env f.msg) = none) :
    KicksExactly cfg sv sv' u f env r ↔
      none = (lineArgument (cstr f.msg.body.bytes)).bind (kickTarget sv.users) := by
  rw [handleKick, htarget] at hhandled
  rw [hhandled] at hserver hout
  have hspared : ∀ q fd, Output.kick q fd ∉ r.out := by
    intro q fd
    simp [hout, replyOnly]
  constructor
  · intro hkicks
    cases hbind : (lineArgument (cstr f.msg.body.bytes)).bind (kickTarget sv.users) with
    | none => rfl
    | some e =>
        obtain ⟨q, v⟩ := e
        obtain ⟨arg, harg, hfound⟩ := Option.bind_eq_some_iff.mp hbind
        obtain ⟨hv, hin, hname⟩ := kickTarget_eq_some hfound
        exact absurd (hkicks.hits q v hv hin (by rw [harg, hname])).1 (hspared q _)
  · intro hbind
    constructor
    · intro q v hv hin harg
      rw [harg, Option.bind_some, hdistinct.kickTarget hv hin] at hbind
      cases hbind
    · intro q v hv _
      exact ⟨hspared q, hserver ▸ hv⟩
    · intro _
      exact ⟨congrArg Server.users hserver, _, hout⟩

/-- A kick that finds a user is right where the argument names it. -/
theorem kicksExactly_of_hit {handled : Handled} {t : UserPtr} {w : User}
    (hhandled : handled = handleKick cfg env u sv f.msg) (hdistinct : DistinctNames sv.users)
    (hserver : sv' = handled.server) (hout : r.out = .recv u.sock :: .read u.sock :: handled.out)
    (htarget : kickTarget sv.users (kickName env f.msg) = some (t, w)) :
    KicksExactly cfg sv sv' u f env r ↔
      some (t, w) = (lineArgument (cstr f.msg.body.bytes)).bind (kickTarget sv.users) := by
  obtain ⟨hw, hwin, hwname⟩ := kickTarget_eq_some htarget
  rw [handleKick, htarget] at hhandled
  subst hhandled hserver
  have hkick : ∀ q fd, Output.kick q fd ∈ r.out ↔ q = t ∧ fd = w.sock := by
    intro q fd
    simp [hout]
  have hget : ∀ q, (sv.users.userShouldShutdown t).get? q =
      if q = t then (sv.users.get? q).map User.flag else sv.users.get? q := fun q =>
    Table.get?_modify sv.users t q User.flag
  constructor
  · intro hkicks
    -- The target was hit, so it is the one that is named.
    by_cases hnamed : w.loggedIn = true ∧ lineArgument (cstr f.msg.body.bytes) = some w.cname
    · rw [hnamed.2, Option.bind_some, hdistinct.kickTarget hw hnamed.1]
    · exact absurd ((hkick t w.sock).mpr ⟨rfl, rfl⟩) ((hkicks.spares t w hw hnamed).1 w.sock)
  · intro hbind
    obtain ⟨arg, harg, hfound⟩ := Option.bind_eq_some_iff.mp hbind.symm
    have hnamed : lineArgument (cstr f.msg.body.bytes) = some w.cname := by
      rw [harg, (kickTarget_eq_some hfound).2.2]
    constructor
    · intro q v hv hin hargv
      rw [hnamed, Option.some.injEq] at hargv
      have hqt : q = t := hdistinct q t v w hv hw hin hwin hargv.symm
      subst hqt
      rw [hw, Option.some.injEq] at hv
      subst hv
      exact ⟨(hkick q w.sock).mpr ⟨rfl, rfl⟩, by rw [hget, if_pos rfl, hw, Option.map_some]⟩
    · intro q v hv hno
      have hqt : q ≠ t := by
        rintro rfl
        rw [hw, Option.some.injEq] at hv
        subst hv
        exact hno ⟨hwin, hnamed⟩
      refine ⟨fun fd hmem => hqt ((hkick q fd).mp hmem).1, ?_⟩
      rw [hget, if_neg hqt, hv]
    · intro hnobody
      exact absurd hnamed (hnobody t w hw hwin)

/-- The kick hits whom the argument names just where the scan finds the same target. -/
theorem kicksExactly_of_target {handled : Handled}
    (hhandled : handled = handleKick cfg env u sv f.msg) (hdistinct : DistinctNames sv.users)
    (hserver : sv' = handled.server) (hout : r.out = .recv u.sock :: .read u.sock :: handled.out) :
    KicksExactly cfg sv sv' u f env r ↔
      kickTarget sv.users (kickName env f.msg) =
        (lineArgument (cstr f.msg.body.bytes)).bind (kickTarget sv.users) := by
  cases htarget : kickTarget sv.users (kickName env f.msg) with
  | none => exact kicksExactly_of_miss hhandled hdistinct hserver hout htarget
  | some e => exact kicksExactly_of_hit hhandled hdistinct hserver hout htarget

/-- **A kick hits the named user and nobody else.** Whatever the table of distinct names, the
text behind `/kick` and the memory of `name_to_kick`, this holds if and only if the scan reads
the argument, or else nobody is logged in under what it leaves in `name_to_kick`. -/
theorem kicksExactly_iff (hdistinct : DistinctNames sv.users) (hcmd : f.IsCommand)
    (hadmin : u.cname = cfg.adminName.bytes)
    (hword : firstWord (cstr f.msg.body.bytes) = lit "/kick") (hu : sv.users.get? p = some u)
    (hstep : frameStep cfg sv (.frame p f env) = some (sv', r)) :
    KicksExactly cfg sv sv' u f env r ↔
      ScanReadsArgument sv.users (cstr f.msg.body.bytes) env.nameToKick := by
  obtain ⟨v, hv, rfl, rfl⟩ := frameStep_frame hstep
  rw [hu, Option.some.injEq] at hv
  subst hv
  obtain ⟨hserver, hout⟩ := @pass_command cfg sv p u f env hcmd
  have hcode : getServerCommand (cstr f.msg.body.bytes) = .kick := by
    rw [getServerCommand_eq, hword]
    decide
  rw [handleCommand_admin hadmin, hcode] at hserver hout
  rw [kicksExactly_of_target rfl hdistinct hserver hout, kickName,
    kickTarget_scan (zero_notMem_cstr _)]

/-- Among `bob` and `eve`, the administrator kicks `bob`. -/
theorem kicksExactly_bob :
    ∃ sv sv' u r, sv.users.get? 1 = some u ∧
      frameStep .default sv (.frame 1 (.text 9 (lit "/kick bob")) ⟨1, 0, [], lit "eve"⟩) =
        some (sv', r) ∧
      KicksExactly .default sv sv' u (.text 9 (lit "/kick bob")) ⟨1, 0, [], lit "eve"⟩ r := by
  obtain ⟨h, sv, sv', r, -, -, hstep, hP⟩ := Run.exists_step_of_replay
    (M := frameMachine .default) (G := anyStep)
    [.connect 1 1 5, .frame 1 (.login 10 (lit "Admin")) ⟨1, 0, [], []⟩, .connect 2 2 6,
      .frame 2 (.login 8 (lit "bob")) ⟨2, 0, [], []⟩, .connect 3 3 7,
      .frame 3 (.login 8 (lit "eve")) ⟨3, 0, [], []⟩]
    (.frame 1 (.text 9 (lit "/kick bob")) ⟨1, 0, [], lit "eve"⟩)
    (fun _ sv _ _ =>
      ((sv.users.get? 1).any fun u : User => u.cname == Config.default.adminName.bytes) &&
      decide (loginNames sv.users).Nodup)
    (by decide +kernel)
  rw [Bool.and_eq_true, Option.any_eq_true, decide_eq_true_eq] at hP
  obtain ⟨⟨u, hu, hadmin⟩, hnodup⟩ := hP
  refine ⟨sv, sv', u, r, hu, hstep, ?_⟩
  refine (kicksExactly_iff (distinctNames_of_nodup hnodup) (by decide +kernel)
    (beq_iff_eq.mp hadmin) (by decide +kernel) hu hstep).mpr ?_
  have harg : lineArgument (cstr (Frame.text 9 (lit "/kick bob")).msg.body.bytes) =
      some (lit "bob") := by
    decide +kernel
  rw [ScanReadsArgument, harg]
  exact .inl (by decide)

/-- A `/kick` without an argument hits `bob`, whose name `name_to_kick` happens to hold. -/
theorem kick_without_argument :
    ∃ h sv sv' u v r, Run (frameMachine .default) anyStep h sv ∧ DistinctNames sv.users ∧
      sv.users.get? 1 = some u ∧ u.cname = Config.default.adminName.bytes ∧
      sv.users.get? 2 = some v ∧ v.loggedIn = true ∧ v.cname = lit "bob" ∧
      frameStep .default sv (.frame 1 (.text 5 (lit "/kick")) ⟨1, 0, [], lit "bob"⟩) =
        some (sv', r) ∧
      .kick 2 v.sock ∈ r.out ∧
      ¬ KicksExactly .default sv sv' u (.text 5 (lit "/kick")) ⟨1, 0, [], lit "bob"⟩ r := by
  obtain ⟨h, sv, sv', r, hrun, -, hstep, hP⟩ := Run.exists_step_of_replay
    (M := frameMachine .default) (G := anyStep)
    [.connect 1 1 5, .frame 1 (.login 10 (lit "Admin")) ⟨1, 0, [], []⟩, .connect 2 2 6,
      .frame 2 (.login 8 (lit "bob")) ⟨2, 0, [], []⟩]
    (.frame 1 (.text 5 (lit "/kick")) ⟨1, 0, [], lit "bob"⟩)
    (fun _ sv _ r =>
      ((sv.users.get? 1).any fun u : User => u.cname == Config.default.adminName.bytes) &&
      ((sv.users.get? 2).any fun v : User => v.loggedIn && v.cname == lit "bob" &&
        r.out.contains (.kick 2 v.sock)) &&
      decide (loginNames sv.users).Nodup)
    (by decide +kernel)
  simp only [Bool.and_eq_true, Option.any_eq_true, decide_eq_true_eq, beq_iff_eq,
    List.contains_iff_mem] at hP
  obtain ⟨⟨⟨u, hu, hadmin⟩, v, hv, ⟨hin, hname⟩, hkick⟩, hnodup⟩ := hP
  refine ⟨h, sv, sv', u, v, r, hrun, distinctNames_of_nodup hnodup, hu, hadmin, hv, hin, hname,
    hstep, hkick, ?_⟩
  intro hkicks
  have harg : lineArgument (cstr (Frame.text 5 (lit "/kick")).msg.body.bytes) = none := by
    decide +kernel
  refine (hkicks.spares 2 v hv ?_).1 v.sock hkick
  rw [harg]
  rintro ⟨-, ⟨⟩⟩

end LinuxChat
