import LinuxChat.Model.LockThreads

/-!
# userLock before LogLock

Each function of `Locked` takes `userLock` before `LogLock` and gives both
back. What it writes to the list of users without `userLock` is a flag of one
entry at most, and what it does to the log without `LogLock` is to print, to
register a thread's name or to write out what the buffer holds
(`ServerCall.code_ordered`).
-/

namespace LinuxChat

open CMem Mutex.Code

instance : LT ServerLock := ⟨fun i j => i = .userLock ∧ j = .logLock⟩

instance : WellFoundedGT ServerLock := by
  refine ⟨Subrelation.wf ?_ (measure fun i => if i = ServerLock.userLock then 1 else 0).wf⟩
  rintro i j ⟨rfl, rfl⟩
  exact Nat.zero_lt_one

/-! ## What is written without a lock -/

/-- What happens to the list of users without `userLock`. -/
inductive Flagged (l : UserList) : UserList → Prop
  | same : Flagged l l
  | logout (target : UserPtr) : Flagged l (l.logoutUser target)
  | shutdown (target : UserPtr) : Flagged l (l.userShouldShutdown target)

/-- What happens to the log without `LogLock`. -/
inductive Unlocked (lg : Logger) : Logger → Prop
  | same : Unlocked lg lg
  | print (level : LogLevel) (message : List UInt8) : Unlocked lg (lg.print level message)
  | name (threadID : Nat) (path : List UInt8) : Unlocked lg (lg.setThreadName threadID path)
  | rename (filename newFilename : List UInt8) : Unlocked lg (lg.rename filename newFilename)
  | write (x : Fin maxBufferedMessages) : Unlocked lg (lg.writeSlot x)

/-- A write to the shared data that is allowed under the locks `H`. -/
def Protects (H : Set ServerLock) (g : Shared → Shared) : Prop :=
  ∀ sh, (.userLock ∈ H ∨ Flagged sh.users (g sh).users) ∧
    (.logLock ∈ H ∨ Unlocked sh.log (g sh).log)

variable {H : Set ServerLock} {env : LogEnv}

theorem protects_log {f : Logger → Logger} (hlog : .logLock ∈ H) :
    Protects H fun sh => { sh with log := f sh.log } :=
  fun _ => ⟨.inr .same, .inl hlog⟩

/-- What may be done to the log at any time. -/
theorem protects_unlocked {f : Logger → Logger} (hf : ∀ lg, Unlocked lg (f lg)) :
    Protects H fun sh => { sh with log := f sh.log } :=
  fun sh => ⟨.inr .same, .inr (hf sh.log)⟩

theorem protects_users {f : UserList → UserList} (huser : .userLock ∈ H) :
    Protects H fun sh => { sh with users := f sh.users } :=
  fun _ => ⟨.inl huser, .inr .same⟩

/-- A flag may be set at any time. -/
theorem protects_flag {f : UserList → UserList} (hf : ∀ l, Flagged l (f l)) :
    Protects H fun sh => { sh with users := f sh.users } :=
  fun sh => ⟨.inr (hf sh.users), .inr .same⟩

/-- What goes out to a client is under neither lock. -/
theorem protects_send (fd : Nat) (m : CombinedMessage) (ok : Bool) :
    Protects H fun sh => if ok then { sh with sent := sh.sent ++ [(fd, m)] } else sh := by
  intro sh
  cases ok with
  | true => exact ⟨.inr .same, .inr .same⟩
  | false => exact ⟨.inr .same, .inr .same⟩

/-! ## Order -/

namespace Locked

theorem lock_logLock (hlog : .logLock ∉ H) : ∀ j ∈ H, j < ServerLock.logLock := by
  intro j hj
  cases j with
  | userLock => exact ⟨rfl, rfl⟩
  | logLock => exact absurd hj hlog

theorem outputMessage_ordered (hlog : .logLock ∉ H) (level : LogLevel) (message : List UInt8)
    (threadID : Nat) :
    Ordered Protects H (outputMessage level message threadID) fun _ => H := by
  have hprint : Protects H fun sh => { sh with log := sh.log.print level message } :=
    protects_unlocked (f := fun lg => lg.print level message) fun _ => .print level message
  refine (Ordered.change hprint).seq fun _ => ?_
  refine (Ordered.lock (lock_logLock hlog)).seq fun _ => ?_
  have hstore : Protects (insert .logLock H) fun sh =>
      { sh with log := sh.log.store level message threadID } :=
    protects_log (f := fun lg => lg.store level message threadID) (Set.mem_insert _ H)
  exact (Ordered.change hstore).seq fun _ => Ordered.unlock hlog

theorem logOutput_ordered (hlog : .logLock ∉ H) (level : LogLevel) (pre message : List UInt8) :
    Ordered Protects H (logOutput env level pre message) fun _ => H := by
  unfold logOutput
  split
  · exact Ordered.pure rfl
  · exact outputMessage_ordered hlog level _ env.thread

/-- What comes behind a line finds the locks as they were. -/
theorem log_seq (hlog : .logLock ∉ H) {α : Type} {f : Unit → LockCode α} {K : α → Set ServerLock}
    {level : LogLevel} {pre message : List UInt8} (h : Ordered Protects H (f ()) K) :
    Ordered Protects H (logOutput env level pre message >>= f) K :=
  (logOutput_ordered hlog level pre message).seq fun _ => h

/-- With no lock held, `userLock` may be taken. -/
theorem user_seq {α : Type} {f : Unit → LockCode α} {K : α → Set ServerLock}
    (h : Ordered Protects {.userLock} (f ()) K) :
    Ordered Protects ∅ (lock .userLock >>= f) K := by
  have hlock : Ordered Protects ∅ (lock ServerLock.userLock : LockCode Unit) fun _ =>
      {.userLock} := ⟨fun j hj => absurd hj (Set.notMem_empty j), (insert_empty_eq _).symm⟩
  exact hlock.seq fun _ => h

/-- A held `userLock` may be given back, and then no lock is held. -/
theorem unlock_seq {α : Type} {f : Unit → LockCode α} {K : α → Set ServerLock}
    (h : Ordered Protects ∅ (f ()) K) :
    Ordered Protects {.userLock} (unlock .userLock >>= f) K := by
  have hnone : ∅ = ({.userLock} \ {.userLock} : Set ServerLock) := by simp
  have hunlock : Ordered Protects {.userLock} (unlock ServerLock.userLock : LockCode Unit) fun _ =>
      ∅ := ⟨Set.mem_singleton _, hnone⟩
  exact hunlock.seq fun _ => h

theorem change_seq {α : Type} {f : Unit → LockCode α} {K : α → Set ServerLock}
    {g : UserList → UserList} (h : Ordered Protects {.userLock} (f ()) K) :
    Ordered Protects {.userLock} (change (fun sh => { sh with users := g sh.users }) >>= f) K :=
  (Ordered.change (protects_users (Set.mem_singleton _))).seq fun _ => h

theorem findUser_ordered (sock : Nat) :
    Ordered Protects ∅ (findUser env sock) fun _ => ∅ := by
  refine log_seq (by simp) (user_seq (Ordered.reads.seq fun _ => Ordered.reads.seq fun _ => ?_))
  exact log_seq (by simp) (unlock_seq (Ordered.pure rfl))

/-- `create_User` that does not run out of memory. -/
theorem createUser_ordered {malloc : Malloc} (hmalloc : ∀ l, (malloc l).isSome = true)
    (threadID sock : Nat) :
    Ordered Protects ∅ (createUser env malloc threadID sock) fun _ => ∅ := by
  refine log_seq (by simp) ((findUser_ordered sock).seq fun found => ?_)
  split
  · exact log_seq (by simp) (Ordered.pure rfl)
  · refine log_seq (by simp) (user_seq (Ordered.reads.seq fun users => ?_))
    obtain ⟨newUser, hnew⟩ := Option.isSome_iff_exists.mp (hmalloc users)
    rw [hnew]
    refine log_seq (by simp) (change_seq (g := fun _ => _) ?_)
    exact log_seq (by simp) (unlock_seq (log_seq (by simp) (Ordered.pure rfl)))

theorem removeUser_ordered (sock : Nat) :
    Ordered Protects ∅ (removeUser env sock) fun _ => ∅ := by
  refine log_seq (by simp) ((findUser_ordered sock).seq fun found => ?_)
  cases found with
  | none => exact log_seq (by simp) (Ordered.pure rfl)
  | some p =>
      refine log_seq (by simp) (user_seq (Ordered.reads.seq fun onlyOne => ?_))
      have hline : Ordered Protects {.userLock} (if onlyOne = true then
          clLog env .trace (lit "   front == back => only one element") else pure ()) fun _ =>
          {.userLock} := by
        split
        · exact logOutput_ordered (by simp) _ _ _
        · exact Ordered.pure rfl
      refine hline.seq fun _ => change_seq (g := fun l => l.erase p) (unlock_seq ?_)
      exact log_seq (by simp) (Ordered.pure rfl)

/-- `is_name_free` gives `userLock` back on both ways out of its loop. -/
theorem isNameFree_ordered (name : List UInt8) :
    Ordered Protects ∅ (isNameFree env name) fun _ => ∅ := by
  refine log_seq (by simp) (Ordered.reads.seq fun locPointer => ?_)
  cases locPointer with
  | none => exact log_seq (by simp) (Ordered.pure rfl)
  | some front =>
      refine log_seq (by simp) (user_seq (Ordered.reads.seq fun users => ?_))
      have hbody : ∀ e, Ordered Protects {.userLock} (compareName env name e) fun left =>
          if left then ∅ else {.userLock} := by
        intro e
        refine log_seq (by simp) (Ordered.reads.seq fun u => ?_)
        split
        · exact log_seq (by simp) (unlock_seq (Ordered.pure rfl))
        · exact Ordered.pure rfl
      refine (Ordered.loop hbody users).bind fun found => ?_
      cases found with
      | true => exact Ordered.pure rfl
      | false => exact unlock_seq (log_seq (by simp) (Ordered.pure rfl))

theorem loginUser_ordered (target : UserPtr) (name : List UInt8) (size : Nat) :
    Ordered Protects ∅ (loginUser env target name size) fun _ => ∅ := by
  refine log_seq (by simp) (user_seq (change_seq (g := fun l => l.loginUser target name size) ?_))
  exact unlock_seq (log_seq (by simp) (Ordered.pure rfl))

/-- A loop over the users whose command touches no lock but `LogLock`. -/
theorem iterateOverUsers_ordered {f : UserPtr × User → LockCode Bool}
    (hf : ∀ e, Ordered Protects {.userLock} (f e) fun _ => {.userLock}) :
    Ordered Protects ∅ (iterateOverUsers env f) fun _ => ∅ := by
  refine user_seq (log_seq (by simp) (Ordered.reads.seq fun users => ?_))
  refine (Ordered.loop_same hf users).seq fun left => ?_
  exact unlock_seq (log_seq (by simp) (Ordered.pure rfl))

theorem printMessageInfo_ordered (hlog : .logLock ∉ H) (m : CombinedMessage) :
    Ordered Protects H (printMessageInfo env m) fun _ => H := by
  unfold printMessageInfo
  split
  · exact logOutput_ordered hlog _ _ _
  · exact Ordered.pure rfl

theorem networkSend_ordered (hlog : .logLock ∉ H) (fd : Nat) (m : CombinedMessage) (ok : Bool) :
    Ordered Protects H (networkSend env fd m ok) fun _ => H := by
  refine log_seq hlog ((printMessageInfo_ordered hlog m).seq fun _ => ?_)
  refine (Ordered.change (protects_send fd m ok)).seq fun _ => ?_
  split
  · exact log_seq hlog (log_seq hlog (Ordered.pure rfl))
  · exact log_seq hlog (Ordered.pure rfl)

theorem logUserAdded_ordered (hlog : .logLock ∉ H) (now : UInt64) (u : User) :
    Ordered Protects H (logUserAdded env now u) fun _ => H := by
  refine log_seq hlog ?_
  have hline : Ordered Protects H (if now = timeError then
      clLog env .error (lit "   [time] " ++ env.errorStr)
      else clLog env .debug (lit "   [timestamp] valid")) fun _ => H := by
    split
    · exact logOutput_ordered hlog _ _ _
    · exact logOutput_ordered hlog _ _ _
  refine hline.seq fun _ => log_seq hlog ((printMessageInfo_ordered hlog _).seq fun _ => ?_)
  exact logOutput_ordered hlog _ _ _

theorem sendCommand_ordered (ok : UserPtr → Bool) (l : SendLoop) (e : UserPtr × User) :
    Ordered Protects {.userLock} (sendCommand env ok l e) fun _ => {.userLock} := by
  have hlog : ServerLock.logLock ∉ ({.userLock} : Set ServerLock) := by simp
  have htarget : Ordered Protects {.userLock} (logTarget env e.2 l) fun _ => {.userLock} := by
    cases l with
    | broadcast m =>
        rw [logTarget]
        exact logOutput_ordered hlog _ _ _
    | announce p m => exact Ordered.pure rfl
    | departure p m => exact Ordered.pure rfl
    | snapshot p fd now => exact Ordered.pure rfl
  have hbuild : ∀ u, Ordered Protects {.userLock} (logBuild env u l) fun _ => {.userLock} := by
    intro u
    cases l with
    | broadcast m => exact Ordered.pure rfl
    | announce p m => exact Ordered.pure rfl
    | departure p m => exact Ordered.pure rfl
    | snapshot p fd now => exact logUserAdded_ordered hlog now u
  refine htarget.seq fun _ => Ordered.reads.seq fun u => ?_
  split
  · exact (hbuild u).seq fun _ => (networkSend_ordered hlog _ _ _).seq fun _ => Ordered.pure rfl
  · exact Ordered.pure rfl

theorem kickCommand_ordered (nameToKick : List UInt8) (e : UserPtr × User) :
    Ordered Protects {.userLock} (kickCommand nameToKick e) fun _ => {.userLock} := by
  refine Ordered.reads.seq fun u => ?_
  split
  · exact change_seq (g := fun l => l.userShouldShutdown e.1) (Ordered.pure rfl)
  · exact Ordered.pure rfl

/-- The signal handler takes `LogLock` only. -/
theorem sigintHandler_ordered (hlog : .logLock ∉ H) :
    Ordered Protects H (sigintHandler env) fun _ => H := by
  refine (outputMessage_ordered hlog _ _ _).seq fun _ => ?_
  refine (outputMessage_ordered hlog _ _ _).seq fun _ => ?_
  exact log_seq hlog (log_seq hlog (logOutput_ordered hlog _ _ _))

/-! ## Without a lock -/

/-- `logout_user` and `user_should_shutdown`. -/
theorem flag_ordered {f : UserList → UserList} (hf : ∀ l, Flagged l (f l)) :
    Ordered Protects H (change fun sh : Shared => { sh with users := f sh.users }) fun _ => H :=
  Ordered.change (protects_flag hf)

theorem registerThreadLogUnderName_ordered (malloc : Bool) (threadID : Nat) (name : List UInt8) :
    Ordered Protects H (registerThreadLogUnderName malloc threadID name) fun _ => H := by
  refine Ordered.reads.seq fun locFound => ?_
  have hname : Ordered Protects H (if (locFound || malloc) = true then
      change fun sh : Shared =>
        { sh with log := sh.log.setThreadName threadID (ThreadNames.newFilename name) }
      else pure ()) fun _ => H := by
    split
    · have hset : ∀ lg : Logger, Unlocked lg
          (lg.setThreadName threadID (ThreadNames.newFilename name)) := fun _ => .name _ _
      exact Ordered.change (protects_unlocked hset)
    · exact Ordered.pure rfl
  refine hname.seq fun _ => Ordered.reads.seq fun there => ?_
  split
  · exact Ordered.change (protects_unlocked (f := fun lg => lg.rename _ _) fun _ => .rename _ _)
  · exact Ordered.pure rfl

/-- `log_shutdown` writes the buffer out behind the unlock of its line. -/
theorem logShutdown_ordered (hlog : .logLock ∉ H) :
    Ordered Protects H (logShutdown env) fun _ => H := by
  have hslot : ∀ x, Ordered Protects H (writeSlot x) fun _ => H := by
    intro x
    refine Ordered.reads.seq fun count => ?_
    split
    · exact (Ordered.change (protects_unlocked (f := fun lg => lg.writeSlot x)
        fun _ => .write x)).seq fun _ => Ordered.pure rfl
    · exact Ordered.pure rfl
  exact log_seq hlog ((Ordered.loop_same hslot _).seq fun _ => Ordered.pure rfl)

end Locked

/-- `create_User` gets memory, and `remove_Entry`, which nothing calls, is not called. -/
def LockCall.Orderly : LockCall → Prop
  | createUser malloc _ _ => ∀ l, (malloc l).isSome = true
  | removeEntry _ => False
  | removeUser _ | findUser _ | isNameFree _ | loginUser .. | outputMessage .. | sendLoop ..
  | kickLoop _ => True

open Locked in
/-- Every call takes `userLock` before `LogLock`, and gives back what it takes. -/
theorem LockCall.code_ordered {call : LockCall} (h : call.Orderly) :
    Ordered Protects ∅ (call.code env) fun _ => ∅ := by
  cases call with
  | createUser malloc threadID sock =>
      exact (createUser_ordered h threadID sock).seq fun _ => Ordered.pure rfl
  | removeUser sock => exact (removeUser_ordered sock).seq fun _ => Ordered.pure rfl
  | findUser sock => exact (findUser_ordered sock).seq fun _ => Ordered.pure rfl
  | isNameFree name => exact (isNameFree_ordered name).seq fun _ => Ordered.pure rfl
  | loginUser target name size =>
      exact (loginUser_ordered target name size).seq fun _ => Ordered.pure rfl
  | outputMessage level message threadID => exact outputMessage_ordered (by simp) _ _ _
  | removeEntry threadID => exact h.elim
  | sendLoop l ok =>
      exact (iterateOverUsers_ordered (sendCommand_ordered ok l)).seq fun _ => Ordered.pure rfl
  | kickLoop nameToKick =>
      exact (iterateOverUsers_ordered (kickCommand_ordered nameToKick)).seq fun _ =>
        Ordered.pure rfl

def ServerCall.Orderly : ServerCall → Prop
  | locking call => call.Orderly
  | logoutUser _ | userShouldShutdown _ | registerThreadLogUnderName .. | logShutdown => True

theorem ServerCall.code_ordered {call : ServerCall} (h : call.Orderly) :
    Ordered Protects ∅ (call.code env) fun _ => ∅ := by
  cases call with
  | locking call => exact LockCall.code_ordered h
  | logoutUser target => exact Locked.flag_ordered fun _ => .logout target
  | userShouldShutdown target => exact Locked.flag_ordered fun _ => .shutdown target
  | registerThreadLogUnderName malloc threadID name =>
      exact Locked.registerThreadLogUnderName_ordered malloc threadID name
  | logShutdown => exact Locked.logShutdown_ordered (Set.notMem_empty _)

end LinuxChat
