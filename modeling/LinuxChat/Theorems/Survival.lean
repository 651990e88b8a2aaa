import LinuxChat.Logic.SendStep

/-!
# One client's disconnect

Nothing tests a connection between the loop's `is_User_LoggedIn` and its
`send`, no `send` passes MSG_NOSIGNAL and no disposition for SIGPIPE is
installed: a reset in between ends the process. A `send` that fails in any
other way only fails itself, and the loop goes on to everyone else.
-/

namespace LinuxChat

open CMem Trace

/-- The steps of the threads and the peers. -/
abbrev SendHistory := History SendAct SendOut

variable {h : SendHistory} {s s' : Sending} {a : SendAct} {o : SendOut}

def sentToUpdate (t : SendThread) (sent : List UserPtr) : SendAct × SendOut → List UserPtr
  | (.begin l, _) => if l.thread = t then [] else sent
  | (.send t' _, .called _ _ (some p) _) => if t' = t then sent ++ [p] else sent
  | _ => sent

/-- The entries for which the latest loop of `t` has called `network_Send`. -/
def sentTo (h : SendHistory) (t : SendThread) : List UserPtr := h.foldl (sentToUpdate t) []

@[simp] theorem sentTo_snoc (h : SendHistory) (t : SendThread) (e : SendAct × SendOut) :
    sentTo (h ++ [e]) t = sentToUpdate t (sentTo h t) e := by
  simp [sentTo, List.foldl_append]

/-- The next step of a thread, whichever way its call ends. -/
def SendTask.act (t : SendThread) (ok : Bool) : SendTask → Option SendAct
  | looping _ _ => some (.test t)
  | sending _ _ _ _ _ => some (.send t ok)
  | replying _ _ _ => some (.send t ok)
  | idle => none

/-- A step after which the server goes on. -/
structure GoesOn (h : SendHistory) (s : Sending) (a : SendAct) (s' : Sending) (o : SendOut) :
    Prop where
  alive : s'.alive = true
  /-- A `network_Send` returns, and only its own thread has moved. -/
  contained : ∀ t ok, a = .send t ok → ∃ fd m target status,
    o = .called fd m target (some status) ∧ (status = success ∨ status = failure) ∧
      s' = { s with tasks := Function.update s.tasks t (s.tasks t).next }
  /-- At the end of a loop, everyone it had to send to was sent to. -/
  served : ∀ l, o = .finished l → ∀ e ∈ s.users.entries, l.picks e = true →
    e.1 ∈ sentTo h l.thread
  /-- Whoever is in a loop or a call can go on. -/
  enabled : ∀ t ok a', (s'.tasks t).act t ok = some a' → (sendStep s' a').isSome = true

/-- Every step leaves a server that goes on. -/
def goesOn : Guard Sending SendAct SendOut :=
  fun h s a => ∀ s' o, sendStep s a = some (s', o) → GoesOn h s a s' o

/-- No `send` is made on a connection its peer has reset. -/
def sendsToOpen : Guard Sending SendAct SendOut :=
  fun _ s a => ∀ t ok, a = .send t ok → ∀ fd m, (s.tasks t).call? = some (fd, m) →
    s.conns fd ≠ .reset

/-! ## Loops -/

/-- A loop of `t` before position `i`: it holds `userLock`, and of the entries behind it
those it has to send to were sent to. -/
structure LoopOk (h : SendHistory) (s : Sending) (t : SendThread) (l : SendLoop) (i : Nat) :
    Prop where
  lock : s.lock = some t
  thread : l.thread = t
  served : ∀ j e, j < i → s.users.entries[j]? = some e → l.picks e = true → e.1 ∈ sentTo h t

/-- What holds of the thread `t` in its task. -/
def TaskOk (h : SendHistory) (s : Sending) (t : SendThread) : SendTask → Prop
  | .looping l i => LoopOk h s t l i
  | .sending l i p _ _ => LoopOk h s t l i ∧ ∀ e, s.users.entries[i]? = some e → e.1 = p
  | .idle | .replying _ _ _ => True

/-- Every loop is as far as its calls. -/
def Serving (h : SendHistory) (s : Sending) : Prop := ∀ t, TaskOk h s t (s.tasks t)

theorem picks_loggedIn {l : SendLoop} {e : UserPtr × User} (hp : l.picks e = true) :
    e.2.loggedIn = true := by
  cases l <;> simp only [SendLoop.picks, Bool.and_eq_true] at hp
  · exact hp.2
  · exact hp
  · exact hp.1
  · exact hp.2

theorem TaskOk.lock {t : SendThread} {task : SendTask} (hok : TaskOk h s t task) :
    s.lock = some t ∨ task.loop? = none := by
  cases task with
  | looping l i =>
      have hloop : LoopOk h s t l i := hok
      exact .inl hloop.lock
  | sending l i p fd m => exact .inl hok.1.lock
  | idle => exact .inr rfl
  | replying fd m rest => exact .inr rfl

theorem TaskOk.of_loop?_none {t : SendThread} {task : SendTask} (hnone : task.loop? = none) :
    TaskOk h s t task := by
  cases task with
  | looping l i => cases hnone
  | sending l i p fd m => cases hnone
  | idle => trivial
  | replying fd m rest => trivial

/-- An entry of `s'` is where it was in `s`, and is logged in only if it was. -/
def EntriesStay (s s' : Sending) : Prop :=
  ∀ (j : Nat) e', s'.users.entries[j]? = some e' →
    ∃ e, s.users.entries[j]? = some e ∧ e.1 = e'.1 ∧ ∀ l : SendLoop, l.picks e' = true →
      l.picks e = true

/-- A task keeps what holds of it while the lock and the entries stay and no call is
forgotten. -/
theorem TaskOk.mono {h' : SendHistory} {t : SendThread} {task : SendTask}
    (hok : TaskOk h s t task) (hlock : s'.lock = s.lock) (hentries : EntriesStay s s')
    (hsent : ∀ p ∈ sentTo h t, p ∈ sentTo h' t) : TaskOk h' s' t task := by
  have hloop : ∀ {l i}, LoopOk h s t l i → LoopOk h' s' t l i := by
    intro l i hl
    refine ⟨hlock.trans hl.lock, hl.thread, fun j e' hj he' hp => ?_⟩
    obtain ⟨e, he, hkey, hpicks⟩ := hentries j e' he'
    rw [← hkey]
    exact hsent _ (hl.served j e hj he (hpicks l hp))
  cases task with
  | looping l i => exact hloop hok
  | sending l i p fd m =>
      refine ⟨hloop hok.1, fun e' he' => ?_⟩
      obtain ⟨e, he, hkey, -⟩ := hentries i e' he'
      rw [← hkey]
      exact hok.2 e he
  | idle => trivial
  | replying fd m rest => trivial

theorem EntriesStay.refl {s s' : Sending} (husers : s'.users = s.users) : EntriesStay s s' := by
  intro j e' he'
  rw [husers] at he'
  exact ⟨e', he', rfl, fun l hp => hp⟩

theorem EntriesStay.logout {s s' : Sending} {p : UserPtr}
    (husers : s'.users = s.users.logoutUser p) : EntriesStay s s' := by
  intro j e' he'
  rw [husers] at he'
  simp only [UserList.logoutUser, Table.modify, List.getElem?_map, Option.map_eq_some_iff] at he'
  obtain ⟨e, he, rfl⟩ := he'
  refine ⟨e, he, by split <;> rfl, fun l hp => ?_⟩
  split at hp
  · have hlogged := picks_loggedIn hp
    cases hlogged
  · exact hp

/-- A step that changes no task and no lock. -/
theorem Serving.same (hinv : Serving h s) (htasks : s'.tasks = s.tasks) (hlock : s'.lock = s.lock)
    (hentries : EntriesStay s s') (hsent : ∀ t, sentTo (h ++ [(a, o)]) t = sentTo h t) :
    Serving (h ++ [(a, o)]) s' := by
  intro t
  rw [htasks]
  refine (hinv t).mono hlock hentries fun p hp => ?_
  rw [hsent]
  exact hp

/-- A step that needs `userLock`. -/
theorem Serving.unlocked (hinv : Serving h s) (hlock : s.lock = none)
    (htasks : s'.tasks = s.tasks) : Serving (h ++ [(a, o)]) s' := by
  intro t
  rw [htasks]
  exact .of_loop?_none ((hinv t).lock.resolve_left fun hsome => by
    rw [hlock] at hsome
    cases hsome)

/-- A step of `t` alone. -/
theorem Serving.update {t : SendThread} {task : SendTask}
    (htasks : s'.tasks = Function.update s.tasks t task)
    (hown : TaskOk (h ++ [(a, o)]) s' t task)
    (hother : ∀ q, q ≠ t → TaskOk (h ++ [(a, o)]) s' q (s.tasks q)) :
    Serving (h ++ [(a, o)]) s' := by
  intro q
  rw [htasks]
  by_cases hq : q = t
  · subst hq
    rw [Function.update_self]
    exact hown
  · rw [Function.update_of_ne hq]
    exact hother q hq

theorem LoopOk.passed {t : SendThread} {l : SendLoop} {i : Nat} (hloop : LoopOk h s t l i)
    {e : UserPtr × User} (he : s.users.entries[i]? = some e)
    (hsent : l.picks e = true → e.1 ∈ sentTo h t) : LoopOk h s t l (i + 1) := by
  refine ⟨hloop.lock, hloop.thread, fun j e' hj he' hp => ?_⟩
  rcases Nat.lt_succ_iff_lt_or_eq.mp hj with hlt | rfl
  · exact hloop.served j e' hlt he' hp
  · rw [he] at he'
    cases he'
    exact hsent hp

/-- The test of a loop leaves what holds of a task. -/
theorem TaskOk.test {t q : SendThread} {task : SendTask} (hok : TaskOk h s q task)
    (husers : s'.users = s.users) (hlock : s'.lock = s.lock) :
    TaskOk (h ++ [(.test t, o)]) s' q task := by
  refine hok.mono hlock (.refl husers) fun p hp => ?_
  rw [sentTo_snoc]
  simpa [sentToUpdate] using hp

/-- The entry at the position becomes the target. -/
theorem serving_pick {t : SendThread} {l : SendLoop} {i : Nat} {e : UserPtr × User}
    (hinv : Serving h s) (htask : s.tasks t = .looping l i)
    (he : s.users.entries[i]? = some e) :
    Serving (h ++ [(.test t, o)]) { s with
      tasks := Function.update s.tasks t (.sending l i e.1 (l.call e).1 (l.call e).2) } := by
  have hloop : TaskOk h s t (.looping l i) := htask ▸ hinv t
  refine Serving.update rfl ⟨hloop.test rfl rfl, fun e' he' => ?_⟩
    fun q _ => (hinv q).test rfl rfl
  rw [he] at he'
  cases he'
  rfl

theorem serving_pass {t : SendThread} {l : SendLoop} {i : Nat} {e : UserPtr × User}
    (hinv : Serving h s) (htask : s.tasks t = .looping l i)
    (he : s.users.entries[i]? = some e) (hpicks : l.picks e ≠ true) :
    Serving (h ++ [(.test t, o)])
      { s with tasks := Function.update s.tasks t (.looping l (i + 1)) } := by
  have hloop : LoopOk h s t l i := by
    have hok := hinv t
    rw [htask] at hok
    exact hok
  have hnext : TaskOk h s t (.looping l (i + 1)) :=
    hloop.passed he fun hp => absurd hp hpicks
  exact Serving.update rfl (hnext.test rfl rfl) fun q _ => (hinv q).test rfl rfl

/-- The loop that ends was the only one. -/
theorem serving_finish {t : SendThread} {l : SendLoop} {i : Nat} (hinv : Serving h s)
    (htask : s.tasks t = .looping l i) :
    Serving (h ++ [(a, o)]) { s with lock := none, tasks := Function.update s.tasks t .idle } := by
  have hlock : s.lock = some t := by
    have hok := hinv t
    rw [htask] at hok
    exact hok.lock.resolve_right nofun
  refine Serving.update rfl trivial fun q hq => .of_loop?_none ?_
  refine (hinv q).lock.resolve_left fun hother => hq ?_
  rw [hlock] at hother
  exact (Option.some.inj hother).symm

theorem serving_send {t : SendThread} {ok alive : Bool} {fd : Nat} {m : CombinedMessage}
    {status : Option Int} (hinv : Serving h s) (hcall : (s.tasks t).call? = some (fd, m)) :
    Serving (h ++ [(.send t ok, .called fd m (s.tasks t).target? status)])
      { s with tasks := Function.update s.tasks t (s.tasks t).next, alive } := by
  have hsent : ∀ q p, p ∈ sentTo h q →
      p ∈ sentTo (h ++ [(.send t ok, .called fd m (s.tasks t).target? status)]) q := by
    intro q p hp
    rw [sentTo_snoc]
    cases (s.tasks t).target? with
    | none => exact hp
    | some p' =>
        simp only [sentToUpdate]
        split
        · exact List.mem_append_left _ hp
        · exact hp
  refine Serving.update rfl ?_ fun q _ => (hinv q).mono rfl (.refl rfl) (hsent q)
  have hok := hinv t
  cases htask : s.tasks t with
  | idle => rw [htask] at hcall; cases hcall
  | looping l i => rw [htask] at hcall; cases hcall
  | replying fd' m' rest => cases rest <;> trivial
  | sending l i p fd' m' =>
      rw [htask] at hok hsent
      -- The call was the one for the entry at the position.
      have hloop := hok.1
      refine ⟨hloop.lock, hloop.thread, fun j e hj he hp => ?_⟩
      rcases Nat.lt_succ_iff_lt_or_eq.mp hj with hlt | rfl
      · exact hsent t _ (hloop.served j e hlt he hp)
      · rw [hok.2 e he, sentTo_snoc]
        simp [sentToUpdate, SendTask.target?]

theorem serving_step (hinv : Serving h s) (hstep : SendStep s a s' o) :
    Serving (h ++ [(a, o)]) s' := by
  cases hstep with
  | accept hclosed => exact hinv.same rfl rfl (.refl rfl) fun t => by simp [sentToUpdate]
  | reset hopen => exact hinv.same rfl rfl (.refl rfl) fun t => by simp [sentToUpdate]
  | close => exact hinv.same rfl rfl (.refl rfl) fun t => by simp [sentToUpdate]
  | logoutUser => exact hinv.same rfl rfl (.logout rfl) fun t => by simp [sentToUpdate]
  | createUser hp hlock => exact hinv.unlocked hlock rfl
  | loginUser hlock => exact hinv.unlocked hlock rfl
  | removeUser hlock => exact hinv.unlocked hlock rfl
  | begin hlock hidle hown =>
      refine Serving.update rfl ⟨rfl, rfl, fun j e hj => absurd hj (Nat.not_lt_zero j)⟩
        fun q _ => .of_loop?_none ((hinv q).lock.resolve_left fun hsome => ?_)
      rw [hlock] at hsome
      cases hsome
  | pick htask he hpicks => exact serving_pick hinv htask he
  | pass htask he hpicks => exact serving_pass hinv htask he hpicks
  | finish htask hend => exact serving_finish hinv htask
  | reply hu hidle =>
      refine Serving.update rfl trivial fun q _ => (hinv q).mono rfl (.refl rfl) fun p hp => ?_
      simpa [sentToUpdate] using hp
  | send hcall => exact serving_send hinv hcall

/-! ## A loop nothing comes between -/

/-- The `network_Send` calls of a history. -/
def callsOf (h : SendHistory) : List (Nat × CombinedMessage) :=
  h.filterMap fun e =>
    match e.2 with
    | .called fd m _ _ => some (fd, m)
    | _ => none

/-- From wherever a loop is, its own steps take it to its end: they make the calls for the
entries that remain, and give `userLock` back. -/
theorem loop_finishes {t : SendThread} {l : SendLoop} {i : Nat} {rest : List (UserPtr × User)}
    (hrun : Run sendMachine sendsToOpen h s) (halive : s.alive = true)
    (htask : s.tasks t = .looping l i) (hrest : s.users.entries.drop i = rest)
    (hopen : ∀ e ∈ rest, l.picks e = true → s.conns (l.call e).1 ≠ .reset) :
    ∃ h' s', Run sendMachine sendsToOpen (h ++ h') s' ∧ s'.tasks t = .idle ∧ s'.lock = none ∧
      callsOf h' = l.calls rest := by
  induction rest generalizing h s i with
  | nil =>
      have hend : s.users.entries[i]? = none :=
        List.getElem?_eq_none_iff.mpr (List.drop_eq_nil_iff.mp hrest)
      have hstep : sendStep s (.test t) =
          some ({ s with lock := none, tasks := Function.update s.tasks t .idle },
            .finished l) := by
        simp [sendStep, halive, liveStep, htask, hend]
      exact ⟨_, _, .step hrun (fun _ _ ha => by cases ha) hstep, Function.update_self .., rfl, rfl⟩
  | cons e rest ih =>
      have hhead : s.users.entries[i]? = some e := by
        rw [← List.head?_drop, hrest, List.head?_cons]
      have htail : s.users.entries.drop (i + 1) = rest := by
        rw [← List.tail_drop, hrest, List.tail_cons]
      by_cases hpicks : l.picks e = true
      · have hnot := hopen e List.mem_cons_self hpicks
        -- The test finds the entry, and its `network_Send` returns.
        have htest : sendStep s (.test t) = some ({ s with
            tasks := Function.update s.tasks t (.sending l i e.1 (l.call e).1 (l.call e).2) },
            .quiet) := by
          simp [sendStep, halive, liveStep, htask, hhead, hpicks]
        have hrun₁ := Run.step hrun (fun _ _ ha => by cases ha) htest
        obtain ⟨status, hstatus⟩ := Option.ne_none_iff_exists'.mp
          (mt (@networkSend_eq_none_iff _ (l.call e).2 true).mp hnot)
        have hsend : sendStep { s with
              tasks := Function.update s.tasks t (.sending l i e.1 (l.call e).1 (l.call e).2) }
            (.send t true) = some ({ s with
              tasks := Function.update s.tasks t (.looping l (i + 1)) },
              .called (l.call e).1 (l.call e).2 (some e.1) (some status)) := by
          simp [sendStep, halive, liveStep, SendTask.call?, SendTask.target?, SendTask.next,
            hstatus]
        have hrun₂ := Run.step hrun₁ (by
          rintro t' ok ha fd m hcall
          cases ha
          simp only [Function.update_self, SendTask.call?] at hcall
          cases hcall
          exact hnot) hsend
        obtain ⟨h', s', hrun', hidle, hlock, hcalls⟩ := ih hrun₂ halive (Function.update_self ..)
          htail fun e' he' => hopen e' (List.mem_cons_of_mem _ he')
        refine ⟨_, s', by simpa using hrun', hidle, hlock, ?_⟩
        rw [SendLoop.calls, List.filter_cons_of_pos hpicks, List.map_cons]
        simpa [callsOf, SendLoop.calls] using hcalls
      · have htest : sendStep s (.test t) = some ({ s with
            tasks := Function.update s.tasks t (.looping l (i + 1)) }, .quiet) := by
          simp [sendStep, halive, liveStep, htask, hhead, hpicks]
        have hrun₁ := Run.step hrun (fun _ _ ha => by cases ha) htest
        obtain ⟨h', s', hrun', hidle, hlock, hcalls⟩ := ih hrun₁ halive (Function.update_self ..)
          htail fun e' he' => hopen e' (List.mem_cons_of_mem _ he')
        refine ⟨_, s', by simpa using hrun', hidle, hlock, ?_⟩
        rw [SendLoop.calls, List.filter_cons_of_neg hpicks]
        simpa [callsOf, SendLoop.calls] using hcalls

/-! ## The result -/

/-- In a live process, a thread in a loop or a call has its next step. -/
theorem isSome_act (halive : s.alive = true) {t : SendThread} {ok : Bool} {a : SendAct}
    (hact : (s.tasks t).act t ok = some a) : (sendStep s a).isSome = true := by
  rw [sendStep, if_pos halive]
  cases htask : s.tasks t with
  | idle => rw [htask] at hact; cases hact
  | looping l i =>
      rw [htask] at hact
      cases hact
      simp only [liveStep, htask]
      split
      · split <;> rfl
      · rfl
  | sending l i p fd m =>
      rw [htask] at hact
      cases hact
      simp [liveStep, htask, SendTask.call?]
  | replying fd m rest =>
      rw [htask] at hact
      cases hact
      simp [liveStep, htask, SendTask.call?]

/-- Only a `send` ends the process. -/
theorem alive_of_step (hstep : SendStep s a s' o) (ha : ∀ t ok, a ≠ .send t ok) :
    s'.alive = s.alive := by
  cases hstep with
  | send hcall => exact absurd rfl (ha _ _)
  | _ => rfl

/-- A `network_Send` that returns moves its own thread and nothing else. -/
theorem contained_of_send {t : SendThread} {ok : Bool} (halive : s.alive = true)
    (hstep : SendStep s (.send t ok) s' o)
    (hopen : ∀ fd m, (s.tasks t).call? = some (fd, m) → s.conns fd ≠ .reset) :
    s'.alive = true ∧ ∃ fd m target status, o = .called fd m target (some status) ∧
      (status = success ∨ status = failure) ∧
      s' = { s with tasks := Function.update s.tasks t (s.tasks t).next } := by
  cases hstep with
  | @send _ _ fd m hcall =>
      cases hsend : networkSend (s.conns fd) m ok with
      | none => exact absurd (networkSend_eq_none_iff.mp hsend) (hopen fd m hcall)
      | some status =>
          refine ⟨rfl, fd, m, _, status, rfl, networkSend_eq_some hsend, ?_⟩
          rw [Option.isSome_some, ← halive]

/-- A `send` on a connection that was reset ends the process. -/
theorem dead_of_send {t : SendThread} {ok : Bool} {fd : Nat} {m : CombinedMessage}
    (hstep : SendStep s (.send t ok) s' o) (hcall : (s.tasks t).call? = some (fd, m))
    (hreset : s.conns fd = .reset) : s'.alive = false := by
  cases hstep with
  | send hcall' =>
      rw [hcall] at hcall'
      cases hcall'
      show (networkSend (s.conns fd) m ok).isSome = false
      rw [networkSend_eq_none_iff.mpr hreset]
      rfl

/-- The end of a loop comes behind its last entry. -/
theorem served_of_finished (hinv : Serving h s) {l : SendLoop}
    (hstep : SendStep s a s' (.finished l)) :
    ∀ e ∈ s.users.entries, l.picks e = true → e.1 ∈ sentTo h l.thread := by
  cases hstep with
  | @finish t l i htask hend =>
      have hloop : LoopOk h s t l i := by
        have hok := hinv t
        rw [htask] at hok
        exact hok
      intro e he hp
      obtain ⟨j, hj, rfl⟩ := List.getElem_of_mem he
      have hlt := Nat.lt_of_lt_of_le hj (List.getElem?_eq_none_iff.mp hend)
      rw [hloop.thread]
      exact hloop.served j _ hlt (List.getElem?_eq_getElem hj) hp

theorem goesOn_of_step (hinv : Serving h s) (hstep : sendStep s a = some (s', o))
    (hopen : sendsToOpen h s a) : GoesOn h s a s' o := by
  obtain ⟨halive, hcases⟩ := sendStep_inv hstep
  have halive' : s'.alive = true := by
    by_cases hsend : ∃ t ok, a = .send t ok
    · obtain ⟨t, ok, rfl⟩ := hsend
      exact (contained_of_send halive hcases (hopen t ok rfl)).1
    · rw [alive_of_step hcases fun t ok ha => hsend ⟨t, ok, ha⟩]
      exact halive
  refine ⟨halive', ?_, ?_, fun t ok a' hact => isSome_act halive' hact⟩
  · rintro t ok rfl
    exact (contained_of_send halive hcases (hopen t ok rfl)).2
  · rintro l rfl
    exact served_of_finished hinv hcases

/-- **One client's disconnect never stops the server**, exactly in the runs in which no `send`
is made on a connection its peer has already reset. -/
theorem goesOn_iff : Run sendMachine goesOn h s ↔ Run sendMachine sendsToOpen h s := by
  refine Run.iff_of_guards (I := Serving) (fun t => trivial)
    (fun h s a s' o hinv _ hstep => serving_step hinv (sendStep_inv hstep).2)
    fun h s a s' o hinv hstep => ?_
  constructor
  · rintro hgoes t ok rfl fd m hcall hreset
    have hdead := dead_of_send (sendStep_inv hstep).2 hcall hreset
    rw [(hgoes s' o hstep).alive] at hdead
    cases hdead
  · exact fun hopen s₁ o₁ hstep₁ => goesOn_of_step hinv hstep₁ hopen

/-! ## A reset before the send -/

/-- "bob" and "eve" are logged in and the agent has found "eve" logged in when her connection
is reset: the server is gone before "bob" gets the message. -/
theorem not_goesOn_reset :
    ∃ h s s' o, Run sendMachine anyStep h s ∧
      sendStep s (.send .agent true) = some (s', o) ∧ s'.alive = false ∧
      (∀ a, sendStep s' a = none) ∧
      (∃ u, s'.users.get? 2 = some u ∧ u.loggedIn = true ∧ 2 ∉ sentTo h .agent) ∧
      ¬ goesOn h s (.send .agent true) := by
  obtain ⟨h, s, s', o, hrun, -, hstep, hP⟩ := Run.exists_step_of_replay
    (M := sendMachine) (G := anyStep)
    [.accept 5, .createUser 1 1 5, .loginUser 1 (lit "eve") 3,
      .accept 6, .createUser 2 2 6, .loginUser 2 (lit "bob") 3,
      .begin (.broadcast ⟨none, .zero⟩), .test .agent, .reset 5]
    (.send .agent true)
    (fun h _ s' _ => !s'.alive && decide (2 ∉ sentTo h .agent) &&
      (s'.users.get? 2).any (·.loggedIn)) (by decide +kernel)
  simp only [Bool.and_eq_true, decide_eq_true_eq, Bool.not_eq_true'] at hP
  obtain ⟨⟨hdead, hnot⟩, hbob⟩ := hP
  obtain ⟨u, hu, hlogged⟩ := (Option.any_eq_true _ _).mp hbob
  refine ⟨h, s, s', o, hrun, hstep, hdead, fun a => ?_, ⟨u, hu, hlogged, hnot⟩, fun hgoes => ?_⟩
  · rw [sendStep, if_neg (by rw [hdead]; exact Bool.false_ne_true)]
  · rw [(hgoes s' o hstep).alive] at hdead
    cases hdead

end LinuxChat
