import LinuxChat.Logic.FrameStep
import LinuxChat.Model.Sessions

/-!
# Session isolation

A step acts on the entry `self` points to, and `self` is what the latest
session start stored there. So a thread is confined to its own socket and
entry as long as no other session has started since its own
(`isolated_step`); with a second session, the first thread reads the second
client's socket and handles its frames.
-/

namespace LinuxChat

open CMem Trace

variable {cfg : Config} {w w' : World} {r : SessionOut} {h : History SessionAct SessionOut}

/-! ## The step of a session -/

/-- The list has the entry `u` at `p`, and it is that of `fd`. -/
structure EntryOf (l : UserList) (fd : Nat) (p : UserPtr) (u : User) : Prop where
  entry : l.get? p = some u
  sock : u.sock = fd

/-- The session on `fd` is an administrator's. -/
def IsAdmin (cfg : Config) (l : UserList) (fd : Nat) : Prop :=
  ∃ p u, EntryOf l fd p u ∧ u.cname = cfg.adminName.bytes

/-- The argument of a `/kick` that a step receives. -/
def SessionAct.nameToKick : SessionAct → List UInt8
  | .iterate _ f env => kickName env f.msg
  | .start .. | .hangUp .. | .finish .. => []

/-- A step as one of the session on `fd`: its start makes an entry for `fd`, an iteration handles
the frame it receives for the entry of `fd`, the teardown takes this entry away, and both find
in the file-level variables what their own session has left there. -/
inductive OwnStep (cfg : Config) (fd : Nat) (w : World) (sv' : Server) (out : List Output) :
    SessionAct → Prop
  | start {t p} (hp : p ∉ w.server.users.keys)
      (hserver : sv' = { w.server with users := w.server.users.append p (User.fresh t fd) hp })
      (hout : out = []) : OwnStep cfg fd w sv' out (.start t fd p)
  | iterate {t f env p u} (hu : EntryOf w.server.users fd p u)
      (hserver : sv' = (clientPass cfg { env with thread := t } p u w.server f.received).server)
      (hout : out = (clientPass cfg { env with thread := t } p u w.server f.received).out) :
      OwnStep cfg fd w sv' out (.iterate t f env)
  | hangUp {t status} (hserver : sv' = w.server) (hout : out = [.recv fd]) :
      OwnStep cfg fd w sv' out (.hangUp t status)
  | finish {t env p u status} (hu : EntryOf w.server.users fd p u) (hstatus : status ≤ 0)
      (hserver : sv' = (clientTeardown { env with thread := t } p u w.server status
        .communicationError .zero).server)
      (hout : out = (clientTeardown { env with thread := t } p u w.server status
        .communicationError .zero).out) : OwnStep cfg fd w sv' out (.finish t env)

/-- What a step has the agent tell the others about the entry `u`: its accepted login, or its
text. -/
def SessionAct.Tells (l : UserList) (u : User) (o : Outgoing) : SessionAct → Prop
  | .iterate _ f env =>
      AcceptedLogin l f env ∧ o = loginNotice env.now (loggedInAs u f env) ∨
        f.code = .receivedMessage ∧
          o = buildServerToClient f.msg env.now f.announced u.name.bytes u.nameLength
  | .start .. | .hangUp .. | .finish .. => False

/-- An output of the session on `fd`: to its own socket, about its own entry, to the logged-in
users, or a command of an administrator, whose `/kick` closes the socket of the entry it names. -/
def Output.Own (cfg : Config) (l : UserList) (fd : Nat) (act : SessionAct) : Output → Prop
  | .recv fd' | .read fd' | .reply fd' _ | .close fd' => fd' = fd
  | .registerLog thread _ => thread = act.thread
  | .enqueue o _ => ∃ p u, EntryOf l fd p u ∧ act.Tells l u o
  | .notify fd' _ => ∃ e ∈ l.loggedInUsers, e.2.sock = fd'
  | .kick q fd' =>
      IsAdmin cfg l fd ∧ ∃ v, kickTarget l act.nameToKick = some (q, v) ∧ v.sock = fd'
  | .pause | .resume => IsAdmin cfg l fd

/-- The step of a thread that was started for `fd` is one of the session on `fd`, and leaves
everything else alone. -/
structure Isolated (cfg : Config) (fd : Nat) (w : World) (act : SessionAct) (w' : World)
    (r : SessionOut) : Prop where
  defined : r.fault = false
  own : OwnStep cfg fd w w'.server r.out act
  outputs : ∀ x ∈ r.out, x.Own cfg w.server.users fd act
  others : ∀ q v, w.server.users.get? q = some v → v.sock ≠ fd →
    w'.server.users.get? q = some v ∨
      IsAdmin cfg w.server.users fd ∧ kickTarget w.server.users act.nameToKick = some (q, v) ∧
        w'.server.users.get? q = some v.flag
  created : ∀ q v, w.server.users.get? q = none → w'.server.users.get? q = some v → v.sock = fd

/-- A new session gets a descriptor that fits a `u16` and finds it free in the list, and no
session has started since that of the thread that takes the step. -/
def alone : Guard World SessionAct SessionOut := fun h w act =>
  match act with
  | .start _ fd _ => fd < 0x10000 ∧ w.server.users.findUser fd = none
  | .iterate t _ _ | .hangUp t _ | .finish t _ => lastStart h = some t

instance (h : History SessionAct SessionOut) (w : World) : (act : SessionAct) →
    Decidable (alone h w act)
  | .start _ fd _ =>
      inferInstanceAs (Decidable (fd < 0x10000 ∧ w.server.users.findUser fd = none))
  | .iterate t _ _ => inferInstanceAs (Decidable (lastStart h = some t))
  | .hangUp t _ => inferInstanceAs (Decidable (lastStart h = some t))
  | .finish t _ => inferInstanceAs (Decidable (lastStart h = some t))

/-! ## What a pass and a teardown touch -/

/-- A pass acts for its entry. -/
theorem own_pass {t : Nat} {env : Env} {p : UserPtr} {u : User} {f : Frame} {x : Output}
    (hu : w.server.users.get? p = some u)
    (hx : x ∈ (clientPass cfg { env with thread := t } p u w.server f.received).out) :
    x.Own cfg w.server.users u.sock (.iterate t f env) := by
  have hentry : EntryOf w.server.users u.sock p u := ⟨hu, rfl⟩
  cases passOut_of_mem hx with
  | recv => exact rfl
  | read => exact rfl
  | reply o => exact rfl
  | registerLog name => exact rfl
  | login hacc sent => exact ⟨p, u, hentry, .inl ⟨hacc, rfl⟩⟩
  | message hcode sent => exact ⟨p, u, hentry, .inr ⟨hcode, rfl⟩⟩
  | notify hadmin o he => exact ⟨_, he, rfl⟩
  | @kick hadmin e he => exact ⟨⟨p, u, hentry, hadmin⟩, e.2, he, rfl⟩
  | pause hadmin => exact ⟨p, u, hentry, hadmin⟩
  | resume hadmin => exact ⟨p, u, hentry, hadmin⟩

/-- A logged-in user is one behind a `logout_user` of another. -/
theorem mem_loggedInUsers_logout {l : UserList} {p : UserPtr} {e : UserPtr × User}
    (he : e ∈ (l.logoutUser p).loggedInUsers) (hp : e.1 ≠ p) : e ∈ l.loggedInUsers := by
  obtain ⟨hget, hin⟩ := UserList.mem_loggedInUsers.mp he
  rw [UserList.logoutUser, Table.get?_modify_of_ne hp] at hget
  exact UserList.mem_loggedInUsers.mpr ⟨hget, hin⟩

theorem own_teardown {t : Nat} {env : Env} {p : UserPtr} {u : User} {status : Int}
    {reason : ClientDisconnectCode} {m : CombinedMessage} {x : Output}
    (hx : x ∈ (clientTeardown { env with thread := t } p u w.server status reason m).out) :
    x.Own cfg w.server.users u.sock (.finish t env) := by
  simp only [clientTeardown, List.mem_append, List.mem_ite_nil_right, List.mem_map,
    List.mem_singleton, List.mem_filter, decide_eq_true_eq] at hx
  rcases hx with ⟨-, e, ⟨he, hself⟩, rfl⟩ | rfl
  · exact ⟨e, mem_loggedInUsers_logout he hself, rfl⟩
  · exact rfl

/-- A pass changes its own entry, or flags the target of an administrator's `/kick`. -/
theorem users_pass (env : Env) (p : UserPtr) (u : User) (sv : Server) (f : Frame) :
    (clientPass cfg env p u sv f.received).server.users = sv.users ∨
      ∃ q g, (clientPass cfg env p u sv f.received).server.users = sv.users.modify q g ∧
        (∀ v : User, (g v).sock = v.sock) ∧
        (q = p ∨ g = User.flag ∧ u.cname = cfg.adminName.bytes ∧
          ∃ v, kickTarget sv.users (kickName env f.msg) = some (q, v)) := by
  have husers : (clientPass cfg env p u sv f.received).server.users =
      (handleFrame cfg env p u sv f.code f.msg).server.users := by rw [f.received_eq]; rfl
  have hmem : ∀ x ∈ (handleFrame cfg env p u sv f.code f.msg).out,
      x ∈ (clientPass cfg env p u sv f.received).out := by
    intro x hx
    rw [f.received_eq]
    exact List.mem_append_right _ hx
  rw [husers]
  obtain ⟨-, hlogin⟩ | ⟨-, hsame | ⟨q, hflag, hq⟩⟩ :=
    @handleFrame_users cfg env p u sv f
  · exact .inr ⟨p, _, hlogin, fun _ => rfl, .inl rfl⟩
  · exact .inl hsame
  · refine .inr ⟨q, User.flag, hflag, fun _ => rfl, hq.imp_right fun ⟨fd, hkick⟩ => ?_⟩
    cases passOut_of_mem (hmem _ hkick) with
    | @kick hadmin e he => exact ⟨rfl, hadmin, e.2, he⟩

/-- The target of a `/kick` is an entry of the list. -/
theorem get?_kickTarget {l : UserList} {name : List UInt8} {q : UserPtr} {v : User}
    (h : kickTarget l name = some (q, v)) : l.get? q = some v :=
  Table.get?_eq_some_iff.mpr (List.mem_of_find?_eq_some h)

/-! ## Steps -/

theorem sessionStep_start {t fd : Nat} {p : UserPtr}
    (hstep : sessionStep cfg w (.start t fd p) = some (w', r))
    (hg : fd < 0x10000 ∧ w.server.users.findUser fd = none) :
    ∃ hp : p ∉ w.server.users.keys,
      w'.server = { w.server with users := w.server.users.append p (User.fresh t fd) hp } ∧
        w'.self = some p ∧ w'.disconnectReason = .communicationError ∧
        w'.threads = Function.update w.threads t (some (fd, .running)) ∧ r = ⟨[], false⟩ := by
  obtain ⟨hfd, hnone⟩ := hg
  simp only [sessionStep] at hstep
  split at hstep
  · cases hstep
  · rename_i hp
    split at hstep
    · cases hstep
    · simp only [UserList.createUser, toU16_of_lt hfd, hnone] at hstep
      cases hstep
      exact ⟨hp, rfl, rfl, rfl, rfl, rfl⟩

theorem sessionStep_iterate {t : Nat} {f : Frame} {env : Env}
    (hstep : sessionStep cfg w (.iterate t f env) = some (w', r)) :
    ∃ fd, w.threads t = some (fd, .running) ∧ ∀ p u, w.current = some (p, u) →
      w'.self = w.self ∧ w'.threads = w.threads ∧ w'.disconnectReason = w.disconnectReason ∧
        w'.server = (clientPass cfg { env with thread := t } p u w.server f.received).server ∧
        r = ⟨(clientPass cfg { env with thread := t } p u w.server f.received).out, false⟩ := by
  simp only [sessionStep] at hstep
  split at hstep
  · rename_i fd hthread
    refine ⟨fd, hthread, fun p u hcur => ?_⟩
    rw [hcur] at hstep
    cases hstep
    exact ⟨rfl, rfl, rfl, rfl, rfl⟩
  · cases hstep

/-- The file-level variables behind a loop that `recv` has ended with `status`. -/
structure LoopLeft (status : Int) (w : World) : Prop where
  returned : w.connectionStatus = status
  failed : status ≤ 0
  noMessage : w.msg = .zero

theorem sessionStep_hangUp {t : Nat} {status : Int}
    (hstep : sessionStep cfg w (.hangUp t status) = some (w', r)) :
    ∃ fd, w.threads t = some (fd, .running) ∧ ∀ p u, w.current = some (p, u) →
      w'.self = w.self ∧ w'.threads = Function.update w.threads t (some (fd, .ended)) ∧
        w'.disconnectReason = w.disconnectReason ∧ LoopLeft status w' ∧
        w'.server = w.server ∧ r = ⟨[.recv u.sock], false⟩ := by
  simp only [sessionStep] at hstep
  split at hstep
  · rename_i fd hthread
    refine ⟨fd, hthread, fun p u hcur => ?_⟩
    split at hstep
    · cases hstep
    · rename_i hstatus
      rw [hcur] at hstep
      cases hstep
      exact ⟨rfl, rfl, rfl, ⟨rfl, not_lt.mp hstatus, rfl⟩, rfl, rfl⟩
  · cases hstep

theorem sessionStep_finish {t : Nat} {env : Env}
    (hstep : sessionStep cfg w (.finish t env) = some (w', r)) :
    ∃ fd, w.threads t = some (fd, .ended) ∧ ∀ p u, w.current = some (p, u) →
      w'.threads = Function.update w.threads t none ∧ ∃ r₀ : Handled,
        r₀ = clientTeardown { env with thread := t } p u w.server w.connectionStatus
          w.disconnectReason w.msg ∧ w'.server = r₀.server ∧ r = ⟨r₀.out, false⟩ := by
  simp only [sessionStep] at hstep
  split at hstep
  · rename_i fd hthread
    refine ⟨fd, hthread, fun p u hcur => ?_⟩
    rw [hcur] at hstep
    cases hstep
    exact ⟨rfl, _, rfl, rfl, rfl⟩
  · cases hstep

/-! ## The entry of the latest session -/

/-- `self` is the entry of the session that started last, and the other variables are what it has
left in them, until that session is over. -/
structure Owned (h : History SessionAct SessionOut) (w : World) : Prop where
  sockUnique : UserList.SockUnique w.server.users
  self : ∀ t fd phase, lastStart h = some t → w.threads t = some (fd, phase) →
    ∃ p u, w.self = some p ∧ EntryOf w.server.users fd p u
  reason : ∀ t fd phase, lastStart h = some t → w.threads t = some (fd, phase) →
    w.disconnectReason = .communicationError
  ended : ∀ t fd, lastStart h = some t → w.threads t = some (fd, .ended) →
    ∃ status, LoopLeft status w

theorem owned_init : Owned [] World.init := by
  refine ⟨?_, ?_, ?_, ?_⟩
  · intro p q u v hu
    simp [World.init, Server.init] at hu
  · rintro t fd phase ⟨⟩
  · rintro t fd phase ⟨⟩
  · rintro t fd ⟨⟩

/-- What a thread finds at `self` when no other session has started since its own. -/
theorem current_of_owned (hinv : Owned h w) {t fd : Nat} {phase : SessionPhase}
    (hlast : lastStart h = some t) (hthread : w.threads t = some (fd, phase)) :
    ∃ p u, w.self = some p ∧ EntryOf w.server.users fd p u ∧ w.current = some (p, u) := by
  obtain ⟨p, u, hself, hentry⟩ := hinv.self t fd phase hlast hthread
  exact ⟨p, u, hself, hentry, by simp [World.current, hself, hentry.entry]⟩

/-- A change in place that keeps the sockets keeps the latest session's entry. -/
theorem exists_entryOf_modify {l : UserList} {fd : Nat} {p q : UserPtr} {u : User}
    {g : User → User} (hg : ∀ v : User, (g v).sock = v.sock) (hu : EntryOf l fd p u) :
    ∃ u', EntryOf (l.modify q g) fd p u' := by
  refine ⟨if p = q then g u else u, ?_, ?_⟩
  · rw [Table.get?_modify, hu.entry]
    split <;> rfl
  · split
    · rw [hg, hu.sock]
    · exact hu.sock

/-- What the steps of an allowed run keep. -/
theorem owned_step {act : SessionAct} (hinv : Owned h w) (hg : alone h w act)
    (hstep : sessionStep cfg w act = some (w', r)) : Owned (h ++ [(act, r)]) w' := by
  cases act with
  | start t fd p =>
      obtain ⟨hp, hserver, hself, hreason, hthreads, -⟩ := sessionStep_start hstep hg
      -- The thread that has just started is the one to look at.
      have hnew : ∀ t' fd' phase, lastStart (h ++ [(.start t fd p, r)]) = some t' →
          w'.threads t' = some (fd', phase) → fd = fd' ∧ phase = .running := by
        intro t' fd' phase hlast hthread
        rw [lastStart_snoc, Option.some.injEq] at hlast
        rw [hthreads, ← hlast, Function.update_self] at hthread
        cases hthread
        exact ⟨rfl, rfl⟩
      refine ⟨?_, fun t' fd' phase hlast hthread => ?_, fun _ _ _ _ _ => hreason,
        fun t' fd' hlast hthread => ?_⟩
      · rw [hserver]
        exact hinv.sockUnique.append (u := User.fresh t fd) hg.2 hp
      · obtain ⟨rfl, -⟩ := hnew t' fd' phase hlast hthread
        refine ⟨p, User.fresh t fd, hself, ?_, rfl⟩
        rw [hserver, Table.get?_append, if_pos rfl]
      · cases (hnew t' fd' _ hlast hthread).2
  | iterate t f env =>
      obtain ⟨fd, hthread, hcurrent⟩ := sessionStep_iterate hstep
      obtain ⟨p, u, hself, hu, hcur⟩ := current_of_owned hinv hg hthread
      obtain ⟨hself', hthreads', hreason, hserver, -⟩ := hcurrent p u hcur
      -- A pass changes entries in place, so the session's entry stays under `self`.
      have hkeep : UserList.SockUnique w'.server.users ∧
          ∃ u', EntryOf w'.server.users fd p u' := by
        rw [hserver]
        obtain hsame | ⟨q, g, hmod, hgsock, -⟩ :=
          @users_pass cfg { env with thread := t } p u w.server f
        · rw [hsame]
          exact ⟨hinv.sockUnique, u, hu⟩
        · rw [hmod]
          exact ⟨hinv.sockUnique.modify hgsock q, exists_entryOf_modify hgsock hu⟩
      obtain ⟨hunique, u', hu'⟩ := hkeep
      -- The latest start is that of `t`, so `t` is the only thread to look at.
      have hsame : ∀ t' fd' phase, lastStart (h ++ [(.iterate t f env, r)]) = some t' →
          w'.threads t' = some (fd', phase) → fd = fd' ∧ phase = .running := by
        intro t' fd' phase hlast hthread'
        obtain rfl : t = t' := Option.some.inj (hg.symm.trans (by simpa using hlast))
        rw [hthreads', hthread] at hthread'
        cases hthread'
        exact ⟨rfl, rfl⟩
      refine ⟨hunique, fun t' fd' phase hlast hthread' => ?_, fun _ _ _ _ _ => ?_,
        fun t' fd' hlast hthread' => ?_⟩
      · obtain ⟨rfl, -⟩ := hsame t' fd' phase hlast hthread'
        exact ⟨p, u', hself'.trans hself, hu'⟩
      · exact hreason.trans (hinv.reason t fd .running hg hthread)
      · cases (hsame t' fd' _ hlast hthread').2
  | hangUp t status =>
      obtain ⟨fd, hthread, hcurrent⟩ := sessionStep_hangUp hstep
      obtain ⟨p, u, hself, hu, hcur⟩ := current_of_owned hinv hg hthread
      obtain ⟨hself', hthreads', hreason, hleft, hserver, -⟩ := hcurrent p u hcur
      refine ⟨by rw [hserver]; exact hinv.sockUnique, fun t' fd' phase hlast hthread' => ?_,
        fun _ _ _ _ _ => ?_, fun _ _ _ _ => ⟨status, hleft⟩⟩
      · obtain rfl : t = t' := Option.some.inj (hg.symm.trans (by simpa using hlast))
        rw [hthreads', Function.update_self] at hthread'
        cases hthread'
        exact ⟨p, u, hself'.trans hself, by rw [hserver]; exact hu⟩
      · exact hreason.trans (hinv.reason t fd .running hg hthread)
  | finish t env =>
      obtain ⟨fd, hthread, hcurrent⟩ := sessionStep_finish hstep
      obtain ⟨p, u, -, hu, hcur⟩ := current_of_owned hinv hg hthread
      obtain ⟨hthreads', r₀, rfl, hserver, -⟩ := hcurrent p u hcur
      -- With its thread gone, the latest session leaves nothing to say.
      have hnone : ∀ t' fd' phase, lastStart (h ++ [(.finish t env, r)]) = some t' →
          w'.threads t' ≠ some (fd', phase) := by
        intro t' fd' phase hlast hthread'
        obtain rfl : t = t' := Option.some.inj (hg.symm.trans (by simpa using hlast))
        rw [hthreads', Function.update_self] at hthread'
        cases hthread'
      refine ⟨?_, fun t' fd' phase hlast hthread' => ?_, fun t' fd' phase hlast hthread' => ?_,
        fun t' fd' hlast hthread' => ?_⟩
      · rw [hserver, users_teardown hinv.sockUnique hu.entry]
        exact (hinv.sockUnique.modify (f := User.logout) (fun _ => rfl) p).erase p
      · exact absurd hthread' (hnone t' fd' phase hlast)
      · exact absurd hthread' (hnone t' fd' phase hlast)
      · exact absurd hthread' (hnone t' fd' .ended hlast)

/-! ## Isolation of each step -/

/-- A session start adds its own entry. -/
theorem isolated_start {t fd : Nat} {p : UserPtr}
    (hstep : sessionStep cfg w (.start t fd p) = some (w', r))
    (hg : fd < 0x10000 ∧ w.server.users.findUser fd = none) :
    Isolated cfg fd w (.start t fd p) w' r := by
  obtain ⟨hp, hserver, -, -, -, rfl⟩ := sessionStep_start hstep hg
  refine ⟨rfl, .start hp hserver rfl, fun x hx => absurd hx List.not_mem_nil,
    fun q v hv _ => .inl ?_, fun q v hnone hv => ?_⟩
  · have hq : q ≠ p := fun hq => hp (Table.mem_keys_iff.mpr ⟨v, hq ▸ hv⟩)
    rw [hserver, Table.get?_append, if_neg hq, hv]
  · rw [hserver, Table.get?_append] at hv
    split at hv
    · cases hv
      rfl
    · rw [hnone] at hv
      cases hv

/-- An iteration handles its frame for its own entry. -/
theorem isolated_iterate {t fd : Nat} {f : Frame} {env : Env} {p : UserPtr} {u : User}
    (hstep : sessionStep cfg w (.iterate t f env) = some (w', r))
    (hu : EntryOf w.server.users fd p u) (hcur : w.current = some (p, u)) :
    Isolated cfg fd w (.iterate t f env) w' r := by
  obtain ⟨_, -, hcurrent⟩ := sessionStep_iterate hstep
  obtain ⟨-, -, -, hserver, rfl⟩ := hcurrent p u hcur
  have husers := @users_pass cfg { env with thread := t } p u w.server f
  rw [← hserver] at husers
  obtain rfl := hu.sock
  refine ⟨rfl, .iterate hu hserver rfl, fun x hx => own_pass hu.entry hx, ?_, ?_⟩
  · intro q v hv hother
    have hqp : q ≠ p := Table.ne_of_get? hv hu.entry (ne_of_apply_ne User.sock hother)
    rcases husers with hsame | ⟨q', g, hmod, -, hq'⟩
    · rw [hsame]
      exact .inl hv
    · rw [hmod, Table.get?_modify, hv]
      by_cases hq : q = q'
      · subst hq
        obtain ⟨rfl, hadmin, v', htarget⟩ := hq'.resolve_left hqp
        obtain rfl : v' = v := Option.some.inj ((get?_kickTarget htarget).symm.trans hv)
        exact .inr ⟨⟨p, u, hu, hadmin⟩, htarget, by rw [if_pos rfl]; rfl⟩
      · exact .inl (if_neg hq)
  · intro q v hnone hv
    rcases husers with hsame | ⟨q', g, hmod, -, -⟩
    · rw [hsame, hnone] at hv
      cases hv
    · rw [hmod, Table.get?_modify, hnone] at hv
      split at hv <;> cases hv

/-- The last iteration reads its own socket and changes nothing. -/
theorem isolated_hangUp {t fd : Nat} {status : Int} {p : UserPtr} {u : User}
    (hstep : sessionStep cfg w (.hangUp t status) = some (w', r))
    (hu : EntryOf w.server.users fd p u) (hcur : w.current = some (p, u)) :
    Isolated cfg fd w (.hangUp t status) w' r := by
  obtain ⟨_, -, hcurrent⟩ := sessionStep_hangUp hstep
  obtain ⟨-, -, -, -, hserver, rfl⟩ := hcurrent p u hcur
  obtain rfl := hu.sock
  refine ⟨rfl, .hangUp hserver rfl, ?_, fun q v hv _ => .inl ?_, ?_⟩
  · intro x hx
    rw [List.mem_singleton.mp hx]
    exact rfl
  · rw [hserver]
    exact hv
  · intro q v hnone hv
    rw [hserver, hnone] at hv
    cases hv

/-- A teardown removes its own entry. -/
theorem isolated_finish {t fd : Nat} {env : Env} {p : UserPtr} {u : User} (hinv : Owned h w)
    (hlast : lastStart h = some t) (hstep : sessionStep cfg w (.finish t env) = some (w', r))
    (hu : EntryOf w.server.users fd p u) (hcur : w.current = some (p, u)) :
    Isolated cfg fd w (.finish t env) w' r := by
  obtain ⟨fd', hthread, hcurrent⟩ := sessionStep_finish hstep
  obtain ⟨-, r₀, rfl, hserver, rfl⟩ := hcurrent p u hcur
  -- The other variables are this session's too.
  obtain ⟨status, hleft⟩ := hinv.ended t fd' hlast hthread
  rw [hinv.reason t fd' .ended hlast hthread, hleft.returned, hleft.noMessage] at hserver ⊢
  obtain rfl := hu.sock
  have husers : w'.server.users = (w.server.users.modify p User.logout).erase p := by
    rw [hserver, users_teardown hinv.sockUnique hu.entry]
  refine ⟨rfl, .finish hu hleft.failed hserver rfl, fun x hx => own_teardown hx, ?_, ?_⟩
  · intro q v hv hother
    have hqp : q ≠ p := Table.ne_of_get? hv hu.entry (ne_of_apply_ne User.sock hother)
    left
    rw [husers, Table.get?_erase, if_neg hqp, Table.get?_modify_of_ne hqp, hv]
  · intro q v hnone hv
    rw [husers, Table.get?_erase] at hv
    split at hv
    · cases hv
    · rw [Table.get?_modify, hnone] at hv
      split at hv <;> cases hv

/-- The descriptor the thread of a step was, or is being, started for. -/
def startedFor (w : World) : SessionAct → Option Nat
  | .start _ fd _ => some fd
  | .iterate t _ _ | .hangUp t _ | .finish t _ => (w.threads t).map Prod.fst

/-- **A session alone is isolated.** In every run in which the descriptor of a new session fits a
`u16` and is new to the list, and no session takes a step after another one has started, every
step of a thread is a step of the session on the descriptor it was started for, and touches no
other. -/
theorem isolated_step (hrun : Run (sessionMachine cfg) alone h w) {act : SessionAct}
    (hg : alone h w act) (hstep : sessionStep cfg w act = some (w', r)) {fd : Nat}
    (hfd : startedFor w act = some fd) : Isolated cfg fd w act w' r := by
  have hinv : Owned h w :=
    hrun.invariant owned_init fun _ _ _ _ _ hinv hg hs => owned_step hinv hg hs
  -- Behind its start, a thread finds its own entry at `self`: no session has started since.
  have hcurrent : ∀ t, lastStart h = some t → (w.threads t).map Prod.fst = some fd →
      ∃ p u, EntryOf w.server.users fd p u ∧ w.current = some (p, u) := by
    intro t hlast hfd
    obtain ⟨⟨fd', phase⟩, hthread, rfl⟩ := Option.map_eq_some_iff.mp hfd
    obtain ⟨p, u, -, hu, hcur⟩ := current_of_owned hinv hlast hthread
    exact ⟨p, u, hu, hcur⟩
  cases act with
  | start t fd' p =>
      cases hfd
      exact isolated_start hstep hg
  | iterate t f env =>
      obtain ⟨p, u, hu, hcur⟩ := hcurrent t hg hfd
      exact isolated_iterate hstep hu hcur
  | hangUp t status =>
      obtain ⟨p, u, hu, hcur⟩ := hcurrent t hg hfd
      exact isolated_hangUp hstep hu hcur
  | finish t env =>
      obtain ⟨p, u, hu, hcur⟩ := hcurrent t hg hfd
      exact isolated_finish hinv hg hstep hu hcur

/-- One client connects and logs in. -/
theorem isolated_step_login :
    ∃ h w w' r, Run (sessionMachine .default) alone h w ∧
      sessionStep .default w (.iterate 1 (.login 8 (lit "bob")) ⟨1, 0, [], []⟩) = some (w', r) ∧
      (w'.server.users.get? 1).map (·.loggedIn) = some true ∧
      Isolated .default 5 w (.iterate 1 (.login 8 (lit "bob")) ⟨1, 0, [], []⟩) w' r := by
  obtain ⟨h, w, w', r, hrun, hg, hstep, hP⟩ := Run.exists_step_of_replay
    (M := sessionMachine .default) (G := alone) [.start 1 5 1]
    (.iterate 1 (.login 8 (lit "bob")) ⟨1, 0, [], []⟩)
    (fun _ w w' _ => (w.threads 1).map Prod.fst == some 5 &&
      (w'.server.users.get? 1).map (·.loggedIn) == some true) (by decide +kernel)
  rw [Bool.and_eq_true, beq_iff_eq, beq_iff_eq] at hP
  exact ⟨h, w, w', r, hrun, hstep, hP.2, isolated_step hrun hg hstep hP.1⟩

/-- Two clients connect. The thread of the first reads from the second one's socket, and logs
the second one in. -/
theorem not_isolated_second :
    ∃ h w w' r, Run (sessionMachine .default) anyStep h w ∧
      sessionStep .default w (.iterate 1 (.login 8 (lit "bob")) ⟨1, 0, [], []⟩) = some (w', r) ∧
      (w.threads 1).map Prod.fst = some 5 ∧ Output.recv 6 ∈ r.out ∧
      (w'.server.users.get? 2).map (fun v => (v.sock, v.loggedIn)) = some (6, true) ∧
      ¬ Isolated .default 5 w (.iterate 1 (.login 8 (lit "bob")) ⟨1, 0, [], []⟩) w' r := by
  obtain ⟨h, w, w', r, hrun, -, hstep, hP⟩ := Run.exists_step_of_replay
    (M := sessionMachine .default) (G := anyStep) [.start 1 5 1, .start 2 6 2]
    (.iterate 1 (.login 8 (lit "bob")) ⟨1, 0, [], []⟩)
    (fun _ w w' r => (w.threads 1).map Prod.fst == some 5 && decide (Output.recv 6 ∈ r.out) &&
      (w'.server.users.get? 2).map (fun v => (v.sock, v.loggedIn)) == some (6, true))
    (by decide +kernel)
  rw [Bool.and_eq_true, Bool.and_eq_true, beq_iff_eq, beq_iff_eq, decide_eq_true_eq] at hP
  obtain ⟨⟨hthread, hrecv⟩, hentry⟩ := hP
  refine ⟨h, w, w', r, hrun, hstep, hthread, hrecv, hentry, fun hiso => ?_⟩
  have hown : 6 = 5 := hiso.outputs _ hrecv
  exact absurd hown (by decide)

end LinuxChat
