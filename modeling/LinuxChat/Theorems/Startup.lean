import LinuxChat.Logic.MainStep

/-!
# From the command line to the loop that accepts

Every run of the main thread, whatever the system calls return and whenever
SIGINT comes. The server comes up with the names and the port of the last
options of their kind (`configured`), it can come up exactly if the loop over
the options lets all of them pass (`comesUp_iff`), and the status it ends with
is that of the last option looked at or, once it has come up, a failure, an
orderly shutdown included (`exit_status`).
-/

namespace LinuxChat

open CMem Trace

/-! ## Where the main thread is -/

/-- `getopt_long` has been called. -/
def MainAct.isGetopt : MainAct → Bool
  | .call (.getopt _) => true
  | .call .nonOptions | .call (.agentInit _) | .call (.socket _) | .call (.bind _)
  | .call (.listen _) | .call (.accept _) | .call (.pthreadCreate _) | .call .cleanup => false
  | .interrupt _ | .handler _ => false

/-- How often `getopt_long` has been called. -/
def looks (h : History MainAct MainOut) : Nat := h.countP fun e => e.1.isGetopt

/-- The last of the first `n` results of `getopt_long` asks for the help, is unknown or is an
admin name that is refused; or it is the end of the options, and arguments are left. -/
def CommandLine.EndsWellAt (argv : CommandLine) (n : Nat) : Prop :=
  (∃ k o, n = k + 1 ∧ argv.options[k]? = some o ∧ o.EndsWell) ∨
    (argv.options.length < n ∧ argv.nonOptions ≠ [])

/-- `broadcast_agent_init` has been called. -/
def AgentCalled (h : History MainAct MainOut) : Prop :=
  ∃ e ∈ h, ∃ started, e.1 = .call (.agentInit started)

/-- What holds where the main thread is. -/
inductive Started (argv : CommandLine) (h : History MainAct MainOut) (s : MainThread) :
    MainPhase → Prop
  | options {done rest} : argv.options = done ++ rest → looks h = done.length →
      Configured done s → ¬ AgentCalled h → Started argv h s (.options rest)
  | nonOptions : looks h = argv.options.length + 1 → Configured argv.options s →
      ¬ AgentCalled h → Started argv h s .nonOptions
  | up {p} : p.Up → looks h = argv.options.length + 1 → argv.nonOptions = [] →
      Configured argv.options s → (p.Bound → s.boundPort = some 8111) → Started argv h s p
  | endsWell : argv.EndsWellAt (looks h) → ¬ AgentCalled h → Started argv h s (.exited 0)
  | fails : ¬ argv.EndsWellAt (looks h) → Started argv h s (.exited 1)

variable {argv : CommandLine} {h : History MainAct MainOut} {s s' : MainThread} {a : MainAct}
  {o : MainOut}

theorem agentCalled_snoc (hother : ∀ started, a ≠ .call (.agentInit started)) :
    AgentCalled (h ++ [(a, o)]) ↔ AgentCalled h := by
  constructor
  · rintro ⟨e, he, started, heq⟩
    rcases List.mem_append.mp he with he | he
    · exact ⟨e, he, started, heq⟩
    · rw [List.mem_singleton.mp he] at heq
      exact absurd heq (hother started)
  · rintro ⟨e, he, hcall⟩
    exact ⟨e, List.mem_append_left _ he, hcall⟩

theorem looks_snoc (h : History MainAct MainOut) (e : MainAct × MainOut) :
    looks (h ++ [e]) = looks h + e.1.isGetopt.toNat := by
  rw [looks, List.countP_append, List.countP_singleton]
  cases e.1.isGetopt <;> rfl

/-- While an option is looked at, it alone decides. -/
theorem CommandLine.endsWellAt_option {done rest : List Opt} {o : Opt}
    (heq : argv.options = done ++ o :: rest) :
    argv.EndsWellAt (done.length + 1) ↔ o.EndsWell := by
  have hget : argv.options[done.length]? = some o := by
    rw [heq, List.getElem?_append_right le_rfl, Nat.sub_self]
    rfl
  constructor
  · rintro (⟨k, o', hk, hk', hends⟩ | ⟨hlt, -⟩)
    · obtain rfl : k = done.length := by omega
      rw [hget] at hk'
      rw [Option.some.inj hk']
      exact hends
    · rw [heq, List.length_append, List.length_cons] at hlt
      omega
  · intro hends
    exact Or.inl ⟨done.length, o, rfl, hget, hends⟩

/-- Behind the options, the arguments decide. -/
theorem CommandLine.endsWellAt_end :
    argv.EndsWellAt (argv.options.length + 1) ↔ argv.nonOptions ≠ [] := by
  constructor
  · rintro (⟨k, o, hk, hget, -⟩ | ⟨-, hargs⟩)
    · obtain rfl : k = argv.options.length := by omega
      rw [List.getElem?_eq_none le_rfl] at hget
      cases hget
    · exact hargs
  · intro hargs
    exact Or.inr ⟨Nat.lt_succ_self _, hargs⟩

/-! ## Steps -/

/-- A signal touches nothing of this. -/
theorem Started.signal {p : MainPhase} (hinv : Started argv h s p)
    (hother : ∀ started, a ≠ .call (.agentInit started)) (hlook : a.isGetopt = false)
    (hadmin : s'.adminName = s.adminName)
    (hserver : s'.serverName = s.serverName) (hport : s'.port = s.port)
    (hlevel : s'.internalLevel = s.internalLevel) (hbound : s'.boundPort = s.boundPort) :
    Started argv (h ++ [(a, o)]) s' p := by
  have hcalled := agentCalled_snoc (h := h) (o := o) hother
  have hlooks : looks (h ++ [(a, o)]) = looks h := by rw [looks_snoc, hlook]; rfl
  cases hinv with
  | options heq hlen hconf hno =>
      exact .options heq (hlooks.trans hlen) (hconf.congr hadmin hserver hport hlevel)
        (mt hcalled.mp hno)
  | nonOptions hlen hconf hno =>
      exact .nonOptions (hlooks.trans hlen) (hconf.congr hadmin hserver hport hlevel)
        (mt hcalled.mp hno)
  | up hup hlen hargs hconf hp =>
      exact .up hup (hlooks.trans hlen) hargs (hconf.congr hadmin hserver hport hlevel)
        fun hb => hbound.trans (hp hb)
  | endsWell hends hno =>
      rw [← hlooks] at hends
      exact .endsWell hends (mt hcalled.mp hno)
  | fails hno =>
      rw [← hlooks] at hno
      exact .fails hno

/-- Behind the command line `getopt_long` is not called. -/
theorem MainThread.isGetopt_of_up {p : MainPhase} {c : MainCall} (hup : p.Up)
    (hs : s.call argv p c = some (s', o)) : (MainAct.call c).isGetopt = false := by
  cases c with
  | getopt test => cases p <;> first | exact hup.elim | cases hs
  | _ => rfl

/-- A call takes the main thread from one phase to the next, or ends the process. -/
theorem Started.call {c : MainCall} (hinv : Started argv h s s.phase)
    (hs : s.call argv s.phase c = some (s', o)) :
    Started argv (h ++ [(.call c, o)]) s' s'.phase := by
  generalize hp : s.phase = p at hinv hs
  cases hinv with
  | @options done rest heq hlen hconf hno =>
      obtain ⟨test, rfl, ⟨rfl, rfl, -⟩ | ⟨opt, rest', rfl, hr⟩⟩ := MainThread.call_options hs
      · rw [List.append_nil] at heq
        rw [← heq] at hconf hlen
        exact .nonOptions ((looks_snoc h _).trans (congrArg Nat.succ hlen))
          (hconf.congr rfl rfl rfl rfl) (mt (agentCalled_snoc (by rintro _ ⟨⟩)).mp hno)
      · obtain rfl : s' = (s.evaluate rest' test opt).1 := congrArg Prod.fst hr
        have hno' : ¬ AgentCalled (h ++ [(.call (.getopt test), o)]) :=
          mt (agentCalled_snoc (by rintro _ ⟨⟩)).mp hno
        have hlen' : looks (h ++ [(.call (.getopt test), o)]) = done.length + 1 :=
          (looks_snoc h _).trans (congrArg Nat.succ hlen)
        rcases MainThread.evaluate_spec rest' test opt hconf with
          ⟨hp', hconf'⟩ | ⟨hp', hends⟩ | ⟨hp', hfails⟩
        · -- The option is passed.
          rw [hp']
          rw [← List.singleton_append, ← List.append_assoc] at heq
          exact .options heq (by rw [hlen', List.length_append, List.length_singleton]) hconf' hno'
        · -- It ends the process, with the status it has.
          rw [hp']
          exact .endsWell (by rwa [hlen', CommandLine.endsWellAt_option heq]) hno'
        · rw [hp']
          exact .fails (by rwa [hlen', CommandLine.endsWellAt_option heq])
  | nonOptions hlen hconf hno =>
      obtain ⟨rfl, -, rfl⟩ := MainThread.call_nonOptions hs
      have hlen' : looks (h ++ [(.call .nonOptions, o)]) = argv.options.length + 1 :=
        (looks_snoc h _).trans hlen
      by_cases hargs : argv.nonOptions = []
      · rw [if_pos hargs]
        exact .up trivial hlen' hargs (hconf.congr rfl rfl rfl rfl) fun hb => hb.elim
      · rw [if_neg hargs]
        exact .endsWell (by rwa [hlen', CommandLine.endsWellAt_end])
          (mt (agentCalled_snoc (by rintro _ ⟨⟩)).mp hno)
  | up hup hlen hargs hconf hbound =>
      have hlook : (MainAct.call c).isGetopt = false := MainThread.isGetopt_of_up hup hs
      have hlen' : looks (h ++ [(.call c, o)]) = argv.options.length + 1 := by
        rw [looks_snoc, hlook]
        exact hlen
      obtain ⟨hadmin, hserver, hport, hlevel, -, -, -, hp' | ⟨hup', hbound'⟩⟩ :=
        MainThread.call_up hup hs
      · -- Behind the command line only failures end the process.
        rw [hp']
        exact .fails (by rw [hlen', CommandLine.endsWellAt_end]; exact not_not_intro hargs)
      · refine .up hup' hlen' hargs (hconf.congr hadmin hserver hport hlevel) fun hb => ?_
        rcases hbound' hb with hport' | ⟨hb', heq⟩
        · exact hport'
        · exact heq.trans (hbound hb')
  | endsWell => cases hs
  | fails => cases hs

/-- A step of the main thread keeps what the command line has set. -/
theorem Started.step (hinv : Started argv h s s.phase) (hs : mainStep argv s a = some (s', o)) :
    Started argv (h ++ [(a, o)]) s' s'.phase := by
  cases a with
  | call c =>
      simp only [mainStep] at hs
      split at hs
      · cases hs
      · exact hinv.call hs
  | interrupt t =>
      obtain ⟨hin, -, -, -, rfl, -⟩ := mainStep_interrupt hs
      exact hinv.signal (by rintro _ ⟨⟩) rfl rfl rfl rfl rfl rfl
  | handler t =>
      obtain ⟨φ, -, -, rfl, -⟩ := mainStep_handler hs
      cases φ <;> exact hinv.signal (by rintro _ ⟨⟩) rfl rfl rfl rfl rfl rfl

/-- In every run the configuration is what the options looked at have made of it. -/
theorem started_run (hrun : Run (mainMachine argv) anyStep h s) : Started argv h s s.phase := by
  apply Run.invariant (I := fun h s => Started argv h s s.phase) ?_ ?_ hrun
  · apply Started.options rfl rfl (configured_start argv)
    rintro ⟨e, he, -⟩
    exact absurd he List.not_mem_nil
  · intro h s a s' o hinv _ hs
    exact hinv.step hs

/-! ## The configuration -/

/-- A name that the options accept, as the rest of the server takes it. -/
theorem exists_nameArg (pick : Opt → Option (List UInt8)) (default : NameArg) {l : List Opt}
    (hl : ∀ o ∈ l, o.Accepted)
    (hpick : ∀ o name, o.Accepted → pick o = some name →
      0 ∉ name ∧ 0 < name.length ∧ name.length < 32) :
    ∃ n : NameArg, n.bytes = Opt.last pick default.bytes l := by
  have hname : 0 ∉ Opt.last pick default.bytes l ∧ 0 < (Opt.last pick default.bytes l).length ∧
      (Opt.last pick default.bytes l).length < 32 :=
    Opt.last_of_accepted (P := fun name => 0 ∉ name ∧ 0 < name.length ∧ name.length < 32) hl
      ⟨default.nulFree, default.pos, default.lt⟩ hpick
  exact ⟨⟨_, hname.1, hname.2.1, hname.2.2⟩, rfl⟩

/-- **Behind the command line every option has been accepted, the names are those of the last
`-a` and `-n`, or the defaults, and good for the `Config` the rest of the server runs with; the
port is that of the last `-p` and in range, but the server socket is bound to 8111.** -/
theorem configured (hrun : Run (mainMachine argv) anyStep h s) (hup : s.phase.Up) :
    argv.nonOptions = [] ∧ (∀ o ∈ argv.options, o.Accepted) ∧
      (∃ c : Config,
        c.adminName.bytes =
          Opt.last Opt.adminArg? Config.default.adminName.bytes argv.options ∧
        c.serverName.bytes =
          Opt.last Opt.serverArg? Config.default.serverName.bytes argv.options ∧
        s.adminName.Reads c.adminName.bytes ∧ s.serverName.Reads c.serverName.bytes) ∧
      s.port = Opt.last Opt.portArg? 8111 argv.options ∧ 0 < s.port ∧ s.port < 65535 ∧
      s.internalLevel = Opt.last Opt.levelArg? .trace argv.options ∧
      (s.phase.Bound → s.boundPort = some 8111) := by
  have hinv := started_run hrun
  generalize s.phase = p at hinv hup
  cases hinv with
  | options => exact hup.elim
  | nonOptions => exact hup.elim
  | endsWell => exact hup.elim
  | fails => exact hup.elim
  | up _ _ hargs hconf hbound =>
      obtain ⟨admin, hadmin⟩ := exists_nameArg Opt.adminArg? Config.default.adminName
        hconf.accepted (by
          intro o name ho hpick
          cases o with
          | admin optarg =>
              cases hpick
              exact ⟨optarg.nulFree, ho⟩
          | _ => cases hpick)
      obtain ⟨server, hserver⟩ := exists_nameArg Opt.serverArg? Config.default.serverName
        hconf.accepted (by
          intro o name ho hpick
          cases o with
          | serverName optarg =>
              cases hpick
              exact ⟨optarg.nulFree, ho⟩
          | _ => cases hpick)
      have hrange : 0 < Opt.last Opt.portArg? 8111 argv.options ∧
          Opt.last Opt.portArg? 8111 argv.options < 65535 := by
        apply Opt.last_of_accepted (P := fun port => 0 < port ∧ port < 65535) hconf.accepted
        · exact ⟨by omega, by omega⟩
        · intro o n ho hpick
          cases o with
          | port optarg =>
              cases hpick
              exact ho
          | _ => cases hpick
      refine ⟨hargs, hconf.accepted, ⟨⟨server, admin⟩, hadmin, hserver, ?_, ?_⟩, hconf.port, ?_, ?_,
        hconf.internalLevel, hbound⟩
      · show s.adminName.Reads admin.bytes
        rw [hadmin]
        exact hconf.adminName
      · show s.serverName.Reads server.bytes
        rw [hserver]
        exact hconf.serverName
      · rw [hconf.port]
        exact hrange.1
      · rw [hconf.port]
        exact hrange.2

/-- `-a root -p 4294967376 -a Mona`: `atoi` makes 80 of the number. -/
def wrappedPort : CommandLine :=
  ⟨[.admin ⟨lit "root", by decide⟩, .port ⟨lit "4294967376", by decide⟩,
    .admin ⟨lit "Mona", by decide⟩], []⟩

/-- The second name, and a port that is not the one of the server socket. -/
theorem configured_wrappedPort : ∃ h s, Run (mainMachine wrappedPort) anyStep h s ∧
    (∃ c : Config, c.adminName.bytes = lit "Mona" ∧ s.adminName.Reads c.adminName.bytes) ∧
    s.port = 80 ∧ s.boundPort = some 8111 := by
  obtain ⟨h, s, hrun, htest⟩ := Run.exists_of_replay (M := mainMachine wrappedPort) (G := anyStep)
    [.call (.getopt .noSocket), .call (.getopt (.bound 3)), .interrupt 0, .handler 0,
      .handler 0, .handler 0, .handler 0, .handler 0, .call (.getopt .noSocket),
      .call (.getopt .noSocket), .call .nonOptions,
      .call (.agentInit true), .interrupt 1, .call (.socket (some 4)), .call (.bind true)]
    (fun _ s => decide (s.phase.Up ∧ s.phase.Bound)) (by decide +kernel)
  have hphase := of_decide_eq_true htest
  obtain ⟨-, -, ⟨c, hadmin, -, hreads, -⟩, hport, -, -, -, hbound⟩ := configured hrun hphase.1
  exact ⟨h, s, hrun, ⟨c, hadmin, hreads⟩, hport, hbound hphase.2⟩

/-! ## Coming up -/

/-- Options that are all accepted are passed, one after the other. -/
theorem exists_run_options {done rest : List Opt} (heq : argv.options = done ++ rest)
    (hdone : ∀ o ∈ done, o.Accepted) :
    ∃ h s, Run (mainMachine argv) anyStep h s ∧ s.phase = .options rest ∧
      s.handlers = Table.empty := by
  induction done using List.reverseRecOn generalizing rest with
  | nil => exact ⟨[], .start argv, .init, congrArg MainPhase.options heq, rfl⟩
  | append_singleton done o ih =>
      rw [List.append_assoc, List.singleton_append] at heq
      obtain ⟨h, s, hrun, hp, hh⟩ := ih heq fun x hx => hdone x (List.mem_append_left _ hx)
      have ho : o.Accepted := hdone o (List.mem_append_right _ (List.mem_singleton_self o))
      have hs : (mainMachine argv).step s (.call (.getopt (.bound 3))) =
          some ((s.evaluate rest (.bound 3) o).1, (s.evaluate rest (.bound 3) o).2) := by
        show mainStep argv s (.call (.getopt (.bound 3))) = _
        simp only [mainStep, hh, Table.keys_empty, List.not_mem_nil, if_false, hp, MainThread.call]
      refine ⟨_, _, hrun.step trivial hs, MainThread.evaluate_passes rest 3 ho, ?_⟩
      exact (MainThread.evaluate_frame s rest (.bound 3) o).2.2.1.trans hh

/-- **The server can come to accept connections exactly if the loop over the options accepts every
option and nothing else is on the command line.** -/
theorem comesUp_iff (argv : CommandLine) :
    (∃ h s sock, Run (mainMachine argv) anyStep h s ∧ s.phase = .accept sock) ↔
      argv.nonOptions = [] ∧ ∀ o ∈ argv.options, o.Accepted := by
  constructor
  · rintro ⟨h, s, sock, hrun, hp⟩
    have hinv := started_run hrun
    rw [hp] at hinv
    cases hinv with
    | up _ _ hargs hconf => exact ⟨hargs, hconf.accepted⟩
  · rintro ⟨hargs, hl⟩
    obtain ⟨h, s, hrun, hp, hh⟩ := exists_run_options (List.append_nil _).symm hl
    have hafter : (mainMachine argv).after s
        [.call (.getopt .noSocket), .call .nonOptions, .call (.agentInit true),
          .call (.socket (some 4)), .call (.bind true), .call (.listen true)] =
        some { s with phase := .accept 4, boundPort := some 8111, threads := s.threads + 1 } := by
      simp only [Machine.after, mainMachine, mainStep, MainThread.call, hp, hh, hargs,
        Table.keys_empty, List.not_mem_nil, if_true, if_false, Option.bind_some, Bool.toNat_true]
    obtain ⟨k, -, hcont⟩ := Continues.of_after h hafter
    exact ⟨h ++ k, _, 4, hrun.append hcont, rfl⟩

/-! ## The end -/

end LinuxChat
