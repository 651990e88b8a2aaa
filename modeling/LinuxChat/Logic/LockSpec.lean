import LinuxChat.Model.Locks

/-!
# What the locked functions do

One triple for each function of `Locked`: it ends with the locks it was
started with, and does to the two lists what the function on lists does. The
two exceptions are `create_User` without memory and `remove_Entry` without an
entry, which keep their lock.
-/

namespace LinuxChat

open CMem Mutex.Code

/-- The user list and the list of thread names are these. -/
structure Lists (l : UserList) (names : List (Nat × List UInt8)) (sh : Shared) : Prop where
  users : sh.users = l
  names : sh.log.threadNames = names

variable {l : UserList} {names : List (Nat × List UInt8)} {s : Shared} {H H' : Finset ServerLock}
  {env : LogEnv}

theorem Lists.withUsers (hs : Lists l names s) (l' : UserList) :
    Lists l' names { s with users := l' } := ⟨rfl, hs.names⟩

/-! ## Logging -/

theorem Logger.threadNames_writeMessagesToFile (lg : Logger) :
    lg.writeMessagesToFile.threadNames = lg.threadNames := by
  unfold Logger.writeMessagesToFile
  generalize lg.buffer.pending = messages
  induction messages generalizing lg with
  | nil => rfl
  | cons m messages ih => exact ih (lg.writeMessage m)

theorem Logger.threadNames_print (lg : Logger) (level : LogLevel) (message : List UInt8) :
    (lg.print level message).threadNames = lg.threadNames := by
  unfold Logger.print
  split <;> rfl

theorem Logger.threadNames_store (lg : Logger) (level : LogLevel) (message : List UInt8)
    (threadID : Nat) : (lg.store level message threadID).threadNames = lg.threadNames := by
  simp only [Logger.store]
  split
  · exact Logger.threadNames_writeMessagesToFile _
  · rfl

namespace Locked

/-- A line is logged between one lock and one unlock of `LogLock`. -/
theorem outputMessage_runs (hlog : .logLock ∉ H) (hs : Lists l names s) (level : LogLevel)
    (message : List UInt8) (threadID : Nat) :
    Runs (outputMessage level message threadID) s H H fun _ => Lists l names := by
  refine Runs.change_bind (Runs.lock_bind hlog (Runs.change_bind (Runs.unlock hlog ?_)))
  constructor
  · exact hs.users
  · rw [Logger.threadNames_store, Logger.threadNames_print]
    exact hs.names

theorem logOutput_runs (hlog : .logLock ∉ H) (hs : Lists l names s) (level : LogLevel)
    (pre message : List UInt8) :
    Runs (logOutput env level pre message) s H H fun _ => Lists l names := by
  unfold logOutput
  split
  · exact Runs.pure hs
  · exact outputMessage_runs hlog hs level _ env.thread

section Bind

variable {α : Type} {k : Unit → LockCode α} {Q : α → Shared → Prop}

/-- What comes behind a line finds the lists as they were. -/
theorem log_bind (hlog : .logLock ∉ H) (hs : Lists l names s) {level : LogLevel}
    {pre message : List UInt8} (h : ∀ s, Lists l names s → Runs (k ()) s H H' Q) :
    Runs (logOutput env level pre message >>= k) s H H' Q :=
  (logOutput_runs hlog hs level pre message).bind fun _ s hs => h s hs

/-- An entry that nobody writes holds what it held. -/
theorem current_bind {f : User → LockCode α} (hs : Lists l names s) {e : UserPtr × User}
    (hmem : e ∈ l.entries) (h : Runs (f e.2) s H H' Q) :
    Runs (current e >>= f) s H H' Q := by
  refine Runs.reads_bind ?_
  rw [hs.users, Table.get?_eq_some_iff.mpr hmem]
  exact h

end Bind

/-! ## user.c -/

/-- `f_find_User` finds what the list has. -/
theorem findUser_runs (huser : .userLock ∉ H) (hlog : .logLock ∉ H) (hs : Lists l names s)
    (sock : Nat) : Runs (findUser env sock) s H H fun r s' =>
      r = l.findUser sock ∧ Lists l names s' := by
  have hlog' : ServerLock.logLock ∉ insert ServerLock.userLock H := by simp [hlog]
  refine log_bind hlog hs fun s hs => ?_
  refine Runs.lock_bind huser (Runs.reads_bind (Runs.reads_bind ?_))
  rw [hs.users]
  refine log_bind hlog' hs fun s hs => ?_
  exact Runs.unlock_bind huser (Runs.pure ⟨rfl, hs⟩)

/-- `create_User` that does not run out of memory. -/
theorem createUser_runs (hs : Lists l names s) {malloc : Malloc} {threadID sock : Nat}
    (h : (l.findUser sock).isSome = true ∨ (malloc l).isSome = true) :
    Runs (createUser env malloc threadID sock) s ∅ ∅ fun r s' => s'.log.threadNames = names ∧
      match malloc l with
      | some newUser => (r, s'.users) = l.createUser newUser.1 threadID sock newUser.2
      | none => (r, s'.users) = (none, l) := by
  refine log_bind (by decide) hs fun s hs => ?_
  refine (findUser_runs (by decide) (by decide) hs sock).bind ?_
  rintro - s ⟨rfl, hs⟩
  cases hfound : l.findUser sock with
  | some p =>
      refine log_bind (by decide) hs fun s hs => Runs.pure ⟨hs.names, ?_⟩
      rw [hs.users]
      cases malloc l with
      | none => rfl
      | some newUser => simp [UserList.createUser, hfound]
  | none =>
      refine log_bind (by decide) hs fun s hs => ?_
      refine Runs.lock_bind (by decide) (Runs.reads_bind ?_)
      obtain ⟨rfl, hnames⟩ := hs
      cases hmalloc : malloc s.users with
      | none => simp [hfound, hmalloc] at h
      | some newUser =>
          refine log_bind (l := s.users) (by decide) ⟨rfl, hnames⟩ fun s' hs' => ?_
          refine Runs.change_bind ?_
          refine log_bind (by decide) (hs'.withUsers _) fun s'' hs'' => ?_
          refine Runs.unlock_bind (by decide) ?_
          refine log_bind (by decide) hs'' fun s'' hs'' => Runs.pure ⟨hs''.names, ?_⟩
          simp [hs''.users, UserList.createUser, hfound]

/-- Without memory it returns with `userLock`. -/
theorem createUser_keeps (hs : Lists l names s) {malloc : Malloc} {threadID sock : Nat}
    (hfound : l.findUser sock = none) (hmalloc : malloc l = none) :
    Runs (createUser env malloc threadID sock) s ∅ {.userLock} fun r s' =>
      r = none ∧ Lists l names s' := by
  refine log_bind (by decide) hs fun s hs => ?_
  refine (findUser_runs (by decide) (by decide) hs sock).bind ?_
  rintro - s ⟨rfl, hs⟩
  rw [hfound]
  refine log_bind (by decide) hs fun s hs => ?_
  refine Runs.lock_bind (by decide) (Runs.reads_bind ?_)
  obtain ⟨rfl, hnames⟩ := hs
  rw [hmalloc]
  refine log_bind (l := s.users) (by decide) ⟨rfl, hnames⟩ fun s' hs' => ?_
  exact Runs.pure ⟨rfl, hs'⟩

theorem removeUser_runs (hs : Lists l names s) (sock : Nat) :
    Runs (removeUser env sock) s ∅ ∅ fun r s' => s'.log.threadNames = names ∧
      (r, s'.users) = l.removeUser sock := by
  refine log_bind (by decide) hs fun s hs => ?_
  refine (findUser_runs (by decide) (by decide) hs sock).bind ?_
  rintro - s ⟨rfl, hs⟩
  cases hfound : l.findUser sock with
  | none =>
      refine log_bind (by decide) hs fun s hs => Runs.pure ⟨hs.names, ?_⟩
      rw [hs.users, UserList.removeUser, hfound]
  | some p =>
      refine log_bind (by decide) hs fun s hs => ?_
      refine Runs.lock_bind (by decide) (Runs.reads_bind ?_)
      refine Runs.bind (Q := fun _ => Lists l names) (K := insert ServerLock.userLock ∅) ?_ ?_
      · split
        · exact logOutput_runs (by decide) hs _ _ _
        · exact Runs.pure hs
      · intro _ s hs
        refine Runs.change_bind ?_
        refine Runs.unlock_bind (by decide) ?_
        refine log_bind (by decide) (hs.withUsers _) fun s' hs' => Runs.pure ⟨hs'.names, ?_⟩
        rw [hs'.users, UserList.removeUser, hfound, hs.users]

/-- `is_name_free` unlocks on both ways out of its loop. -/
theorem isNameFree_runs (hs : Lists l names s) (name : List UInt8) :
    Runs (isNameFree env name) s ∅ ∅ fun r s' =>
      r = l.isNameFree name ∧ Lists l names s' := by
  refine log_bind (by decide) hs fun s hs => Runs.reads_bind ?_
  rw [hs.users]
  cases hfront : l.entries with
  | nil =>
      refine log_bind (by decide) hs fun s hs => Runs.pure ⟨?_, hs⟩
      rw [UserList.isNameFree, hfront]
      rfl
  | cons front rest =>
      -- Nobody has touched the list in between: the loop begins at its front.
      have hall : (l.entries.dropWhile fun e => e.1 ≠ front.1) = l.entries := by
        rw [hfront, List.dropWhile_cons_of_neg (by simp)]
      refine log_bind (by decide) hs fun s hs => Runs.lock_bind (by decide) (Runs.reads_bind ?_)
      rw [hs.users, hall]
      have hfree : l.isNameFree name =
          (l.entries.find? fun e => e.2.cname == cstr name && e.2.loggedIn).isNone := by
        rw [UserList.isNameFree, ← Option.not_isSome, List.isSome_find?]
      refine Runs.loop_bind (K := ∅) (I := Lists l names) (J := fun _ => Lists l names)
        (p := fun e => e.2.cname == cstr name && e.2.loggedIn) l.entries ?_ ?_ hs ?_ ?_
      · intro e hmem s he hs
        refine log_bind (by decide) hs fun s hs => current_bind hs hmem ?_
        rw [he]
        exact Runs.pure ⟨rfl, hs⟩
      · intro e hmem s he hs
        refine log_bind (by decide) hs fun s hs => current_bind hs hmem ?_
        rw [he]
        refine log_bind (by decide) hs fun s hs => ?_
        exact Runs.unlock_bind (by decide) (Runs.pure ⟨rfl, hs⟩)
      · intro s hnone hs
        refine Runs.unlock_bind (by decide) ?_
        refine log_bind (by decide) hs fun s hs => ?_
        exact Runs.pure ⟨by rw [hfree, hnone]; rfl, hs⟩
      · intro e s hsome hs
        exact Runs.pure ⟨by rw [hfree, hsome]; rfl, hs⟩

theorem loginUser_runs (hs : Lists l names s) (target : UserPtr) (name : List UInt8)
    (size : Nat) :
    Runs (loginUser env target name size) s ∅ ∅ fun _ =>
      Lists (l.loginUser target name size) names := by
  refine log_bind (by decide) hs fun s hs => ?_
  refine Runs.lock_bind (by decide) (Runs.change_bind (Runs.unlock_bind (by decide) ?_))
  refine log_bind (by decide) (hs.withUsers _) fun s' hs' => Runs.pure ?_
  rwa [hs.users] at hs'

/-! ## logger.c -/

/-- `remove_Entry` of a thread that has an entry. -/
theorem removeEntry_runs (hs : Lists l names s) {threadID : Nat}
    (h : (names.lookup threadID).isSome = true) :
    Runs (removeEntry threadID) s ∅ ∅ fun _ =>
      Lists l (names.eraseP fun entry => entry.1 == threadID) := by
  refine Runs.lock_bind (by decide) (Runs.reads_bind ?_)
  rw [hs.names, h]
  refine Runs.change_bind (Runs.unlock (by decide) ⟨hs.users, ?_⟩)
  rw [← hs.names]

/-- Without one it returns with `LogLock`. -/
theorem removeEntry_keeps (hs : Lists l names s) {threadID : Nat}
    (h : names.lookup threadID = none) :
    Runs (removeEntry threadID) s ∅ {.logLock} fun _ => Lists l names := by
  refine Runs.lock_bind (by decide) (Runs.reads_bind ?_)
  rw [hs.names, h]
  exact Runs.pure hs

/-! ## The loops -/

/-- A loop over the users that its command leaves at the first user of some kind. -/
theorem iterateOverUsers_runs (hs : Lists l names s)
    {loopCommand : UserPtr × User → LockCode Bool} {p : UserPtr × User → Bool}
    {g : UserPtr × User → UserList}
    (hskip : ∀ e ∈ l.entries, ∀ s, p e = false → Lists l names s →
      Runs (loopCommand e) s (insert .userLock ∅) (insert .userLock ∅) fun r s' =>
        r = false ∧ Lists l names s')
    (hhit : ∀ e ∈ l.entries, ∀ s, p e = true → Lists l names s →
      Runs (loopCommand e) s (insert .userLock ∅) (insert .userLock ∅) fun r s' =>
        r = true ∧ Lists (g e) names s') :
    Runs (iterateOverUsers env loopCommand) s ∅ ∅ fun r s' =>
      match l.entries.find? p with
      | some e => r = true ∧ Lists (g e) names s'
      | none => r = false ∧ Lists l names s' := by
  refine Runs.lock_bind (by decide) ?_
  refine log_bind (by decide) hs fun s hs => Runs.reads_bind ?_
  rw [hs.users]
  refine Runs.loop_bind l.entries hskip hhit hs ?_ ?_
  · intro s hnone hs
    refine Runs.unlock_bind (by decide) ?_
    refine log_bind (by decide) hs fun s hs => Runs.pure ?_
    rw [hnone]
    exact ⟨rfl, hs⟩
  · rintro e s hsome hs
    refine Runs.unlock_bind (by decide) ?_
    refine log_bind (by decide) hs fun s hs => Runs.pure ?_
    rw [hsome]
    exact ⟨rfl, hs⟩

theorem printMessageInfo_runs (hlog : .logLock ∉ H) (hs : Lists l names s) (m : CombinedMessage) :
    Runs (printMessageInfo env m) s H H fun _ => Lists l names := by
  unfold printMessageInfo
  split
  · exact logOutput_runs hlog hs _ _ _
  · exact Runs.pure hs

theorem networkSend_runs (hlog : .logLock ∉ H) (hs : Lists l names s) (fd : Nat)
    (m : CombinedMessage) (ok : Bool) :
    Runs (networkSend env fd m ok) s H H fun _ => Lists l names := by
  refine log_bind hlog hs fun s hs => (printMessageInfo_runs hlog hs m).bind fun _ s hs => ?_
  refine Runs.change_bind ?_
  cases ok with
  | true =>
      have hs' : Lists l names { s with sent := s.sent ++ [(fd, m)] } := ⟨hs.users, hs.names⟩
      rw [if_pos rfl, if_pos rfl]
      refine log_bind hlog hs' fun s hs => ?_
      exact log_bind hlog hs fun s hs => Runs.pure hs
  | false =>
      rw [if_neg Bool.false_ne_true, if_neg Bool.false_ne_true]
      exact log_bind hlog hs fun s hs => Runs.pure hs

theorem logUserAdded_runs (hlog : .logLock ∉ H) (hs : Lists l names s) (now : UInt64) (u : User) :
    Runs (logUserAdded env now u) s H H fun _ => Lists l names := by
  refine log_bind hlog hs fun s hs => ?_
  refine Runs.bind (Q := fun _ => Lists l names) (K := H) ?_ fun _ s hs => ?_
  · split
    · exact logOutput_runs hlog hs _ _ _
    · exact logOutput_runs hlog hs _ _ _
  · refine log_bind hlog hs fun s hs => ?_
    refine (printMessageInfo_runs hlog hs _).bind fun _ s hs => ?_
    exact logOutput_runs hlog hs _ _ _

/-- The command of a loop that sends goes on to the next user. -/
theorem sendCommand_runs (hlog : .logLock ∉ H) (hs : Lists l names s) (ok : UserPtr → Bool)
    (loop : SendLoop) {e : UserPtr × User} (hmem : e ∈ l.entries) :
    Runs (sendCommand env ok loop e) s H H fun r s' => r = false ∧ Lists l names s' := by
  refine Runs.bind (Q := fun _ => Lists l names) (K := H) ?_ fun _ s hs => ?_
  · cases loop with
    | broadcast m =>
        rw [logTarget]
        exact logOutput_runs hlog hs _ _ _
    | announce p m => exact Runs.pure hs
    | departure p m => exact Runs.pure hs
    | snapshot p fd now => exact Runs.pure hs
  · refine current_bind hs hmem ?_
    split
    · refine Runs.bind (Q := fun _ => Lists l names) (K := H) ?_ fun _ s hs => ?_
      · cases loop with
        | broadcast m => exact Runs.pure hs
        | announce p m => exact Runs.pure hs
        | departure p m => exact Runs.pure hs
        | snapshot p fd now => exact logUserAdded_runs hlog hs now e.2
      · exact (networkSend_runs hlog hs _ _ _).bind fun _ s hs => Runs.pure ⟨rfl, hs⟩
    · exact Runs.pure ⟨rfl, hs⟩

/-- The loop of `/kick` is left at the target, which is flagged. -/
theorem kickLoop_runs (hs : Lists l names s) (nameToKick : List UInt8) :
    Runs (iterateOverUsers env (kickCommand nameToKick)) s ∅ ∅ fun r s' =>
      match kickTarget l nameToKick with
      | some e => r = true ∧ Lists (l.userShouldShutdown e.1) names s'
      | none => r = false ∧ Lists l names s' := by
  refine iterateOverUsers_runs (g := fun e => l.userShouldShutdown e.1) hs ?_ ?_
  · intro e hmem s he hs
    refine current_bind hs hmem ?_
    rw [he]
    exact Runs.pure ⟨rfl, hs⟩
  · intro e hmem s he hs
    refine current_bind hs hmem ?_
    rw [if_pos he]
    refine Runs.change_bind (Runs.pure ⟨rfl, ?_⟩)
    rw [← hs.users]
    exact hs.withUsers _

/-- A loop that sends is not left before its end. -/
theorem sendLoop_runs (hs : Lists l names s) (ok : UserPtr → Bool) (loop : SendLoop) :
    Runs (iterateOverUsers env (sendCommand env ok loop)) s ∅ ∅ fun r s' =>
      r = false ∧ Lists l names s' := by
  refine (iterateOverUsers_runs (p := fun _ => false) (g := fun _ => l) hs ?_ ?_).conseq ?_
  · intro e hmem s _ hs
    exact sendCommand_runs (by decide) hs ok loop hmem
  · intro e _ s he
    cases he
  · intro r s' h
    rwa [List.find?_eq_none.mpr (by simp)] at h

end Locked

end LinuxChat
