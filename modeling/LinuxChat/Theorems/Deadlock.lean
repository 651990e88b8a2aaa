import LinuxChat.Logic.LockOrder
import LinuxChat.Theorems.Locking

/-!
# No deadlock among threads

Any number of threads make the calls of a running server, and SIGINT may find
any of them at any point. As long as it finds none of them in the middle of a
line that is being stored, and every `send` comes to an end, the threads never
all wait for each other, and every call returns however they are scheduled
(`never_deadlocked`). A signal that does find its thread there stops it for
good, and with it the log (`stopped_by_signal`). Which writes are made without
a lock is told by `writes_locked`.
-/

namespace LinuxChat

open CMem Mutex Trace Threads

variable {n : Nat} {sh : Shared} {h : History (LockThreadsAct n) Unit} {s s' s'' : LockThreads n}
  {t : Fin n}

/-- Calls get the memory they ask for, and no signal finds its thread between the lock and the
unlock of `LogLock`. -/
def wellTimed : Guard (LockThreads n) (LockThreadsAct n) Unit := fun _ s a =>
  match a with
  | .call _ c => c.2.Orderly
  | .interrupt t _ => s.owner .logLock ≠ some t
  | .step _ => True

/-- In every such run the threads stick to the order of the locks. -/
theorem run_wellTimed (hrun : Run (lockThreads n sh) wellTimed h s) : s.Disciplined Protects := by
  refine run_disciplined (Run.mono ?_ hrun)
  intro h s a hg
  cases a with
  | call t c => exact ServerCall.code_ordered hg
  | interrupt t env => exact Locked.sigintHandler_ordered hg
  | step t => trivial

/-- **The server does not deadlock.** In every state the threads reach, either every call has
returned or some thread can take a step; and whatever thread is chosen for each next step, the
calls under way are over after finitely many. -/
theorem never_deadlocked (hrun : Run (lockThreads n sh) wellTimed h s) :
    (s.Finished ∨ ∃ t s', s.step t = some s') ∧
      ∀ f : ℕ → LockThreads n, f 0 = s → ∃ m, ∀ t, (f m).step t ≠ some (f (m + 1)) := by
  have hd := run_wellTimed hrun
  constructor
  · by_cases hleft : s.Finished
    · exact .inl hleft
    · exact .inr (hd.exists_step hleft)
  · rintro f rfl
    exact not_forever hd

/-- Lookups only, and no signal in the wrong place. -/
def lookups : Guard (LockThreads n) (LockThreadsAct n) Unit := fun _ s a =>
  match a with
  | .call _ c => (c.2 matches .locking (.findUser _)) = true
  | .interrupt t _ => s.owner .logLock ≠ some t
  | .step _ => True

instance (h : History (LockThreadsAct n) Unit) (s : LockThreads n) :
    (a : LockThreadsAct n) → Decidable (lookups h s a)
  | .call _ _ => inferInstanceAs (Decidable (_ = true))
  | .interrupt _ _ => inferInstanceAs (Decidable (_ ≠ _))
  | .step _ => inferInstanceAs (Decidable True)

theorem Run.wellTimed (hrun : Run (lockThreads n sh) lookups h s) :
    Run (lockThreads n sh) wellTimed h s := by
  refine Run.mono ?_ hrun
  intro h s a hg
  cases a with
  | call t c =>
      obtain ⟨env, call⟩ := c
      cases call with
      | locking call =>
          cases call with
          | findUser sock => trivial
          | _ => cases hg
      | _ => cases hg
  | interrupt t env => exact hg
  | step t => trivial

/-- Two lookups: SIGINT finds the first one with `userLock`, and the second one waits for it. -/
theorem never_deadlocked_two :
    ∃ h s, Run (lockThreads 2 noLists) wellTimed h s ∧ s.owner .userLock = some 0 ∧
      (s.step 1).isNone = true ∧ (s.Finished ∨ ∃ t s', s.step t = some s') ∧
      ∀ f : ℕ → LockThreads 2, f 0 = s → ∃ m, ∀ t, (f m).step t ≠ some (f (m + 1)) := by
  obtain ⟨h, s, hrun, hP⟩ := Run.exists_of_replay
    (M := lockThreads 2 noLists) (G := lookups)
    ([.call 0 (plainLog, .locking (.findUser 5)), .call 1 (plainLog, .locking (.findUser 5))] ++
      List.replicate 5 (.step 0) ++ [.interrupt 0 plainLog] ++ List.replicate 4 (.step 1))
    (fun _ s => decide (s.owner .userLock = some 0) && (s.step 1).isNone) (by decide +kernel)
  rw [Bool.and_eq_true, decide_eq_true_eq] at hP
  exact ⟨h, s, Run.wellTimed hrun, hP.1, hP.2, never_deadlocked (Run.wellTimed hrun)⟩

/-- A call nobody gets in the way of does what its program does. -/
theorem call_alone {env : LogEnv} {call : LockCall} {sh' : Shared} (hidle : s.Finished)
    (hfree : ∀ i, s.owner i = none) (hrun : call.prog env (s.data, ∅) = .ok ((), sh', ∅)) :
    ∃ m s', (lockThreads n sh).after s (.call t (env, .locking call) :: List.replicate m (.step t))
        = some s' ∧ s'.data = sh' ∧ s'.Finished ∧ ∀ i, s'.owner i = none := by
  have hcall : (lockThreads n sh).step s (.call t (env, .locking call)) =
      some (s.goOn t (call.code env), ()) := call_eq_some.mpr ⟨hidle t, rfl⟩
  have hcode : (s.goOn t (call.code env)).code t = (call.code env).bind .ret := by
    rw [goOn_code_self, Code.bind_ret]
  have hholds : (s.goOn t (call.code env)).Holds t ∅ := fun i => hfree i
  obtain ⟨m, s', hafter, hdata, hend, hheld, hother⟩ := comesTo hcode hholds hrun
  refine ⟨m, s', ?_, hdata, fun u => ?_, hheld⟩
  · rw [Machine.after_cons hcall]
    exact hafter
  · by_cases hu : u = t
    · rw [hu]
      exact hend
    · rw [hother u hu, goOn_code_of_ne hu]
      exact hidle u

/-- Between two calls of the one thread. -/
structure BetweenCalls (st : Shared × Finset ServerLock) (s : LockThreads n) : Prop where
  released : st.2 = ∅
  data : s.data = st.1
  idle : s.Finished
  free : ∀ i, s.owner i = none

/-- **The calls of one thread are a run of the threads.** Whatever a sequence of calls does to the
lists and the log in one piece each, one of the threads does step by step, with the others idle. -/
theorem calls_alone {env : LogEnv} {h : History LockCall LockOut}
    {st : Shared × Finset ServerLock} (hrun : Run (lockMachine env sh) providedCalls h st)
    (t : Fin n) :
    ∃ k s, Run (lockThreads n sh) anyStep k s ∧ s.data = st.1 ∧ s.Finished ∧
      ∀ i, s.owner i = none := by
  have hfollow : ∃ k s, Run (lockThreads n sh) anyStep k s ∧ BetweenCalls st s := by
    apply hrun.refines (R := fun _ st _ s => BetweenCalls st s)
    · exact ⟨rfl, rfl, fun _ => rfl, fun _ => rfl⟩
    rintro h ⟨sh₁, H⟩ call st' o k s ⟨rfl, rfl, hidle, hfree⟩ hprovided hstep
    have hbalanced : Balanced env call s.data := balanced_of_provided hprovided
    obtain ⟨⟨⟩, sh', hprog, -⟩ := hbalanced
    replace hstep : lockStep env (s.data, ∅) call = some (st', o) := hstep
    rw [lockStep, hprog] at hstep
    cases hstep
    obtain ⟨m, s', hafter, hdata, hidle', hfree'⟩ :=
      @call_alone n sh s t env call sh' hidle hfree hprog
    obtain ⟨k', -, hcont⟩ := Continues.of_after k hafter
    exact ⟨k', s', hcont, rfl, hdata, hidle', hfree'⟩
  obtain ⟨k, s, hrun', hend⟩ := hfollow
  exact ⟨k, s, hrun', hend.data, hend.idle, hend.free⟩

/-- An entry is made and a name checked, step by step as in one piece. -/
theorem calls_alone_two :
    ∃ h st, Run (lockMachine plainLog noLists) providedCalls h st ∧ h.length = 2 ∧
      ∃ k s, Run (lockThreads 3 noLists) anyStep k s ∧ s.data = st.1 ∧ s.Finished ∧
        ∀ i, s.owner i = none := by
  obtain ⟨h, st, hrun, hlen⟩ := Run.exists_of_replay
    (M := lockMachine plainLog noLists) (G := providedCalls)
    [.createUser (fun l => if h : 1 ∈ l.keys then none else some ⟨1, h⟩) 1 5,
      .isNameFree (lit "bob")]
    (fun h _ => h.length == 2) (by decide +kernel)
  exact ⟨h, st, hrun, beq_iff_eq.mp hlen, calls_alone hrun 1⟩

/-! ## A signal in the wrong place -/

/-- Calls get the memory they ask for; signals come at any point. -/
def provided : Guard (LockThreads n) (LockThreadsAct n) Unit := fun _ _ a =>
  match a with
  | .call _ c => c.2.Orderly
  | .interrupt .. | .step _ => True

/-- No line has been stored: the buffer is what it was, and what has gone to a file since is a line
it holds. -/
structure NothingStored (lg lg' : Logger) : Prop where
  buffer : lg'.buffer = lg.buffer
  writes : ∃ ws, lg'.writes = lg.writes ++ ws ∧
    ∀ file text, .text file text ∈ ws → ∃ m ∈ lg.buffer.messages, m.text = text

theorem NothingStored.of_eq {lg lg' : Logger} (hbuffer : lg'.buffer = lg.buffer)
    (hwrites : lg'.writes = lg.writes) : NothingStored lg lg' :=
  ⟨hbuffer, [], by rw [hwrites, List.append_nil], fun _ _ h => absurd h List.not_mem_nil⟩

theorem NothingStored.trans {lg₁ lg₂ lg₃ : Logger} (h : NothingStored lg₁ lg₂)
    (h' : NothingStored lg₂ lg₃) : NothingStored lg₁ lg₃ := by
  obtain ⟨hbuffer, ws, hws, htexts⟩ := h
  obtain ⟨hbuffer', ws', hws', htexts'⟩ := h'
  refine ⟨hbuffer'.trans hbuffer, ws ++ ws', ?_, fun file text hmem => ?_⟩
  · rw [hws', hws, List.append_assoc]
  · rcases List.mem_append.mp hmem with hmem | hmem
    · exact htexts file text hmem
    · rw [← hbuffer]
      exact htexts' file text hmem

/-- Without `LogLock` nothing is stored. -/
theorem Unlocked.nothingStored {lg lg' : Logger} (h : Unlocked lg lg') : NothingStored lg lg' := by
  cases h with
  | same => exact .of_eq rfl rfl
  | print level message =>
      unfold Logger.print
      split
      · exact .of_eq rfl rfl
      · exact .of_eq rfl rfl
  | name threadID path => exact .of_eq rfl rfl
  | rename filename newFilename => exact .of_eq rfl rfl
  | write x =>
      refine ⟨rfl, ?_⟩
      unfold Logger.writeSlot Logger.writeMessage
      refine ⟨_, List.append_assoc .., fun file text hmem => ?_⟩
      rcases List.mem_append.mp hmem with htitle | hline
      · split at htitle
        · cases List.mem_singleton.mp htitle
        · cases htitle
      · cases List.mem_singleton.mp hline
        exact ⟨_, List.get_mem .., rfl⟩

/-- The code is about to lock `LogLock`, or to print a line first. -/
def AboutToLog (c : LockCode Unit) : Prop :=
  (∃ k, c = .acquire .logLock k) ∨ ∃ g k, Protects ∅ g ∧ c = .put g (.acquire .logLock k)

theorem AboutToLog.ne_ret {c : LockCode Unit} (h : AboutToLog c) : c ≠ .ret () := by
  intro hend
  rcases h with ⟨k, hcode⟩ | ⟨g, k, -, hcode⟩
  · rw [hcode] at hend
    cases hend
  · rw [hcode] at hend
    cases hend

/-- The handler begins with a line. -/
theorem aboutToLog_handler (env : LogEnv) (k : LockCode Unit) :
    AboutToLog (Locked.sigintHandler env >>= fun _ => k) :=
  .inr ⟨_, _, protects_unlocked (f := fun lg => lg.print .trace [0x08, 0x0d])
    fun _ => .print .trace [0x08, 0x0d], rfl⟩

/-- Thread `t` holds the lock it waits for, so nobody else ever stores a line. -/
structure Stopped (t : Fin n) (log : Logger) (s : LockThreads n) : Prop where
  owner : s.owner .logLock = some t
  waits : AboutToLog (s.code t)
  others : ∀ u, u ≠ t → Code.Ordered Protects (s.held u) (s.code u) fun _ => ∅
  log : NothingStored log s.data.log

theorem Stopped.free {log : Logger} (hst : Stopped t log s) {u : Fin n} (hu : u ≠ t) :
    .logLock ∉ s.held u := by
  intro hheld
  have hown : some t = some u := hst.owner.symm.trans hheld
  exact hu (Option.some.inj hown).symm

/-- A write under locks without `LogLock` stores nothing. -/
theorem Stopped.log_put {log : Logger} (hst : Stopped t log s) {H : Set ServerLock}
    {g : Shared → Shared} (hg : Protects H g) (hfree : .logLock ∉ H) :
    NothingStored log (g s.data).log :=
  hst.log.trans ((hg s.data).2.resolve_left hfree).nothingStored

/-- A step of the thread itself is at most the printing of a line. -/
theorem Stopped.step_self {log : Logger} (hst : Stopped t log s) (hstep : s.step t = some s') :
    Stopped t log s' := by
  rcases hst.waits with ⟨k, hcode⟩ | ⟨g, k, hg, hcode⟩
  · simp only [Threads.step, hcode, hst.owner] at hstep
    cases hstep
  · simp only [Threads.step, hcode, Option.some.injEq] at hstep
    subst hstep
    refine ⟨hst.owner, ?_, fun u hu => ?_, ?_⟩
    · rw [goOn_code_self]
      exact .inl ⟨k, rfl⟩
    · rw [goOn_code_of_ne hu, goOn_held]
      exact hst.others u hu
    · exact hst.log_put hg (Set.notMem_empty _)

/-- The others go on, without a line. -/
theorem Stopped.step_other {log : Logger} (hst : Stopped t log s) {u : Fin n} (hu : u ≠ t)
    (hstep : s.step u = some s') : Stopped t log s' := by
  have hdone := stepped (hst.others u hu) hstep
  have hheld : s'.held t = s.held t := hdone.held t hu.symm
  refine ⟨?_, ?_, fun v hv => ?_, ?_⟩
  · have hmem : ServerLock.logLock ∈ s.held t := hst.owner
    rw [← hheld] at hmem
    exact hmem
  · rw [hdone.code t hu.symm]
    exact hst.waits
  · by_cases hvu : v = u
    · subst hvu
      exact hdone.ordered
    · rw [hdone.held v hvu, hdone.code v hvu]
      exact hst.others v hv
  · rcases hdone.data with hsame | ⟨g, hg, hdata⟩
    · rw [hsame]
      exact hst.log
    · rw [hdata]
      exact hst.log_put hg (hst.free hu)

/-- Whatever the threads do, the stopped one stays stopped. -/
theorem stopped_step {log : Logger} {a : LockThreadsAct n} {o : Unit} (hst : Stopped t log s)
    (hg : provided h s a) (hstep : (lockThreads n sh).step s a = some (s', o)) :
    Stopped t log s' := by
  cases a with
  | call u c =>
      obtain ⟨hidle, rfl⟩ := call_eq_some.mp hstep
      -- The stopped thread is in no position to call.
      have hu : u ≠ t := by
        rintro rfl
        exact hst.waits.ne_ret hidle
      refine ⟨hst.owner, ?_, fun v hv => ?_, hst.log⟩
      · rw [goOn_code_of_ne hu.symm]
        exact hst.waits
      · rw [goOn_held]
        by_cases hvu : v = u
        · subst hvu
          have hheld := hst.others v hv
          rw [hidle] at hheld
          have hnone : ∅ = s.held v := hheld
          rw [goOn_code_self, ← hnone]
          exact ServerCall.code_ordered hg
        · rw [goOn_code_of_ne hvu]
          exact hst.others v hv
  | interrupt u env =>
      rw [interrupt_eq_some.mp hstep]
      refine ⟨hst.owner, ?_, fun v hv => ?_, hst.log⟩
      · by_cases hu : t = u
        · subst hu
          rw [goOn_code_self]
          exact aboutToLog_handler env _
        · rw [goOn_code_of_ne hu]
          exact hst.waits
      · rw [goOn_held]
        by_cases hvu : v = u
        · subst hvu
          rw [goOn_code_self]
          exact (Locked.sigintHandler_ordered (hst.free hv)).seq fun _ => hst.others v hv
        · rw [goOn_code_of_ne hvu]
          exact hst.others v hv
  | step u =>
      have hs : s.step u = some s' := step_eq_some.mp hstep
      by_cases hu : u = t
      · subst hu
        exact hst.step_self hs
      · exact hst.step_other hu hs

/-- **A signal between the lock and the unlock of `LogLock` stops the log.** If SIGINT finds a
thread there, then whatever the threads do from then on, the call of that thread never returns,
`LogLock` stays with it, and no line is stored any more; what a `log_shutdown` behind its own line
still writes to the files is what the buffer holds. -/
theorem stopped_by_signal (hrun : Run (lockThreads n sh) wellTimed h s)
    (hheld : s.owner .logLock = some t) {env : LogEnv}
    (hsignal : (lockThreads n sh).step s (.interrupt t env) = some (s', ()))
    {h' : History (LockThreadsAct n) Unit}
    (hcont : Continues (lockThreads n sh) provided (h ++ [(.interrupt t env, ())]) s' h' s'') :
    s''.code t ≠ .ret () ∧ s''.owner .logLock = some t ∧
      NothingStored s.data.log s''.data.log := by
  have hd := run_wellTimed hrun
  have hstart : Stopped t s.data.log s' := by
    rw [interrupt_eq_some.mp hsignal]
    refine ⟨hheld, ?_, fun u hu => ?_, .of_eq rfl rfl⟩
    · rw [goOn_code_self]
      exact aboutToLog_handler env _
    · rw [goOn_code_of_ne hu, goOn_held]
      exact hd u
  have hst : Stopped t s.data.log s'' :=
    hcont.invariant (I := fun _ s'' => Stopped t s.data.log s'') hstart
      fun _ _ _ _ _ hst hg hs => stopped_step hst hg hs
  exact ⟨hst.waits.ne_ret, hst.owner, hst.log⟩

/-- SIGINT finds a lookup between the lock and the unlock of its first line. -/
theorem stopped_by_signal_lookup :
    ∃ h s, Run (lockThreads 2 noLists) wellTimed h s ∧ s.owner .logLock = some 0 ∧
      ∃ s', (lockThreads 2 noLists).step s (.interrupt 0 plainLog) = some (s', ()) ∧
        s'.code 0 ≠ .ret () ∧ s'.owner .logLock = some 0 ∧
        NothingStored s.data.log s'.data.log := by
  obtain ⟨h, s, hrun, hP⟩ := Run.exists_of_replay
    (M := lockThreads 2 noLists) (G := lookups)
    [.call 0 (plainLog, .locking (.findUser 5)), .step 0, .step 0]
    (fun _ s => decide (s.owner .logLock = some 0)) (by decide +kernel)
  have hheld := of_decide_eq_true hP
  have hsignal : (lockThreads 2 noLists).step s (.interrupt 0 plainLog) =
      some (s.goOn 0 (Locked.sigintHandler plainLog >>= fun _ => s.code 0), ()) := rfl
  exact ⟨h, s, Run.wellTimed hrun, hheld, _, hsignal,
    stopped_by_signal (Run.wellTimed hrun) hheld hsignal .refl⟩

end LinuxChat
