import LinuxChat.Logic.FrameStep
import LinuxChat.Logic.Numbers

/-!
# Descriptor ownership

A loop over the users holds `userLock`, and a session whose user has a name
waits for it between `logout_user` and `close`. So no loop is about to send to
an entry when its number is given back, as long as a logged-in user has a name
and nobody but the session itself closes its number; a `/kick` does.
-/

namespace LinuxChat

open CMem Trace

variable {h : FdHistory} {s s' : Descriptors} {a : FdAct} {o : FdOut}

/-- Every step is an ordinary one. -/
def ordinary : Guard Descriptors FdAct FdOut := fun _ s a => Ordinary s a

instance (h : FdHistory) (s : Descriptors) (a : FdAct) : Decidable (ordinary h s a) :=
  inferInstanceAs (Decidable (Ordinary s a))

/-! ## The passes of a session -/

/-- The call an output makes, and the number it is made with. -/
def Output.fdCall? : Output → Option (FdCall × Nat)
  | .recv fd => some (.recv, fd)
  | .read fd => some (.read, fd)
  | .reply fd _ | .notify fd _ => some (.send, fd)
  | .kick _ fd | .close fd => some (.close, fd)
  | .enqueue _ _ | .registerLog _ _ | .pause | .resume => none

/-- Every call of a pass is one on `self->sock`, one of a loop over the users, or the `close`
of a `/kick`. -/
theorem fdCall_pass {cfg : Config} {env : Env} {p : UserPtr} {u : User} {sv : Server} {f : Frame}
    {x : Output} (hx : x ∈ (clientPass cfg env p u sv f.received).out) {k : FdCall} {fd : Nat}
    (hcall : x.fdCall? = some (k, fd)) : (k ≠ .close ∧ fd = u.sock) ∨
      (k = .send ∧ ∃ e ∈ sv.users.entries, (FdLoop.toTargets none).picks e = true ∧
        e.2.sock = fd) ∨
      (k = .close ∧ ∃ name e, kickTarget sv.users name = some e ∧ e.2.sock = fd) := by
  cases passOut_of_mem hx with
  | recv => cases hcall; exact .inl ⟨nofun, rfl⟩
  | read => cases hcall; exact .inl ⟨nofun, rfl⟩
  | reply o => cases hcall; exact .inl ⟨nofun, rfl⟩
  | notify _ o he =>
      cases hcall
      obtain ⟨hmem, hlogged⟩ := List.mem_filter.mp he
      exact .inr (.inl ⟨rfl, _, hmem, by simpa [FdLoop.picks] using hlogged, rfl⟩)
  | kick _ he => cases hcall; exact .inr (.inr ⟨rfl, _, _, he, rfl⟩)
  | _ => cases hcall

/-- Every call of a teardown is one of the `UserRemove` loop, where there is one, or the `close`
of its own number. -/
theorem fdCall_teardown {env : Env} {p : UserPtr} {u : User} {sv : Server} {status : Int}
    {reason : ClientDisconnectCode} {m : CombinedMessage} {x : Output}
    (hx : x ∈ (clientTeardown env p u sv status reason m).out) {k : FdCall} {fd : Nat}
    (hcall : x.fdCall? = some (k, fd)) : (k = .close ∧ fd = u.sock) ∨
      (k = .send ∧ u.nameLength ≠ 0 ∧ ∃ e ∈ (sv.users.logoutUser p).entries,
        (FdLoop.toTargets (some p)).picks e = true ∧ e.2.sock = fd) := by
  simp only [clientTeardown, List.mem_append, List.mem_ite_nil_right, List.mem_map,
    List.mem_singleton, List.mem_filter] at hx
  rcases hx with ⟨hname, e, ⟨he, hself⟩, rfl⟩ | rfl
  · cases hcall
    obtain ⟨hmem, hlogged⟩ := List.mem_filter.mp he
    refine .inr ⟨rfl, hname, e, hmem, ?_, rfl⟩
    simpa [FdLoop.picks, hlogged] using hself
  · cases hcall
    exact .inl ⟨rfl, rfl⟩

/-! ## Loops -/

/-- The loop a thread is in. -/
def FdTask.loop? : FdTask → Option FdLoop
  | looping l _ | sending l _ _ => some l
  | idle => none

/-- The thread `t` may be in the loop `l`. -/
def InLoop (phase : Nat → FdPhase) : FdThread → FdLoop → Prop
  | .agent, .toTargets _ => True
  | .agent, .aboutTargets _ => False
  | .session c, .toTargets _ => ∃ p, phase c = .running p ∨ phase c = .loggedOut p
  | .session c, .aboutTargets q => phase c = .running q

/-- The loops and what they are about to send to. -/
structure LoopsOk (s : Descriptors) : Prop where
  lock : ∀ t l, (s.tasks t).loop? = some l → s.lock = some t
  inLoop : ∀ t l, (s.tasks t).loop? = some l → InLoop s.phase t l
  /-- The session of an addressee has not given its number back, and will not while the loop
  is in its call. -/
  addressee : ∀ t l i p, s.tasks t = .sending l i p → ∃ u, s.users.get? p = some u ∧
    (s.phase (s.conn p) = .running p ∨ s.phase (s.conn p) = .loggedOut p) ∧
    (u.nameLength ≠ 0 ∨ t = .session (s.conn p))
  named : ∀ p u, s.users.get? p = some u → u.loggedIn = true →
    u.nameLength ≠ 0 ∧ s.phase (s.conn p) = .running p

/-- Without the lock held there is no loop. -/
theorem LoopsOk.idle (hok : LoopsOk s) (hlock : s.lock = none) (t : FdThread) :
    s.tasks t = .idle := by
  cases htask : s.tasks t with
  | idle => rfl
  | looping l i =>
      have := hok.lock t l (by rw [htask]; rfl)
      rw [hlock] at this
      cases this
  | sending l i p =>
      have := hok.lock t l (by rw [htask]; rfl)
      rw [hlock] at this
      cases this

/-- Only the logged-in entries matter where there is no loop. -/
theorem LoopsOk.of_idle (hidle : ∀ t, s.tasks t = .idle)
    (hnamed : ∀ p u, s.users.get? p = some u → u.loggedIn = true →
      u.nameLength ≠ 0 ∧ s.phase (s.conn p) = .running p) : LoopsOk s := by
  refine ⟨fun t l hl => ?_, fun t l hl => ?_, fun t l i p hp => ?_, hnamed⟩
  · rw [hidle t] at hl
    cases hl
  · rw [hidle t] at hl
    cases hl
  · rw [hidle t] at hp
    cases hp

/-- A session that is in no loop and whose entry is not about to be sent to goes on. -/
theorem LoopsOk.advance (hok : LoopsOk s) {c : Nat} {φ : FdPhase}
    (hfree : (s.tasks (.session c)).loop? = none) (hrunning : ∀ p, s.phase c ≠ .running p)
    (haddr : ∀ t l i p, s.tasks t = .sending l i p → s.conn p ≠ c) :
    LoopsOk { s with phase := Function.update s.phase c φ } := by
  refine ⟨hok.lock, fun t l hl => ?_, fun t l i p hp => ?_, fun p u hu hlogged => ?_⟩
  · have hin := hok.inLoop t l hl
    cases t with
    | agent => cases l <;> exact hin
    | session c' =>
        have hcc : c' ≠ c := fun heq => by rw [heq, hfree] at hl; cases hl
        cases l <;> simpa only [InLoop, Function.update_of_ne hcc] using hin
  · obtain ⟨u, hu, hphase, hname⟩ := hok.addressee t l i p hp
    refine ⟨u, hu, ?_, hname⟩
    simpa only [Function.update_of_ne (haddr t l i p hp)] using hphase
  · obtain ⟨hname, hphase⟩ := hok.named p u hu hlogged
    have hcc : s.conn p ≠ c := fun heq => hrunning p (by rw [← heq]; exact hphase)
    exact ⟨hname, by simpa only [Function.update_of_ne hcc] using hphase⟩

/-- A session before or behind its loops is in none, and nothing is about to be sent to it. -/
theorem LoopsOk.outside (hok : LoopsOk s) {c : Nat} (hrunning : ∀ p, s.phase c ≠ .running p)
    (hout : ∀ p, s.phase c ≠ .loggedOut p) : (s.tasks (.session c)).loop? = none ∧
      ∀ t l i p, s.tasks t = .sending l i p → s.conn p ≠ c := by
  refine ⟨?_, ?_⟩
  · cases hloop : (s.tasks (.session c)).loop? with
    | none => rfl
    | some l =>
        have hin := hok.inLoop _ l hloop
        cases l with
        | toTargets skip =>
            obtain ⟨p, hp | hp⟩ := hin
            · exact absurd hp (hrunning p)
            · exact absurd hp (hout p)
        | aboutTargets q => exact absurd hin (hrunning q)
  · rintro t l i p hp rfl
    obtain ⟨u, -, hphase | hphase, -⟩ := hok.addressee t l i p hp
    · exact hrunning p hphase
    · exact hout p hphase

/-! ## Steps -/

theorem loopsOk_init : LoopsOk .init :=
  .of_idle (fun t => rfl) fun p u hu => by cases hu

theorem loopsOk_start {c thread fd : Nat} {p : UserPtr} (hok : LoopsOk s)
    (hp : p ∉ s.users.keys) (hphase : s.phase c = .accepted fd) (hlock : s.lock = none) :
    LoopsOk { s with
      users := s.users.append p (User.fresh thread (toU16 fd)) hp
      conn := Function.update s.conn p c
      phase := Function.update s.phase c (.running p) } := by
  refine .of_idle (hok.idle hlock) fun p' u hu hlogged => ?_
  rw [Table.get?_append] at hu
  split at hu
  · cases hu
    cases hlogged
  · rename_i hpp
    have hnamed := hok.named p' u hu hlogged
    have hcc : s.conn p' ≠ c := fun heq => by
      rw [heq, hphase] at hnamed
      cases hnamed.2
    simpa only [Function.update_of_ne hpp, Function.update_of_ne hcc] using hnamed

theorem loopsOk_login {c size : Nat} {p : UserPtr} {name : List UInt8} (hinv : NumbersOk s)
    (hok : LoopsOk s) (hphase : s.phase c = .running p) (hlock : s.lock = none)
    (hsize : size ≠ 0) : LoopsOk { s with users := s.users.loginUser p name size } := by
  refine .of_idle (hok.idle hlock) fun p' u hu hlogged => ?_
  obtain ⟨v, hv, rfl⟩ := Table.exists_of_get?_modify hu
  by_cases hpp : p' = p
  · subst hpp
    have hconn := (hinv.own (by rw [hphase]; rfl) hv).1
    simp only [if_true, hconn]
    exact ⟨hsize, hphase⟩
  · rw [if_neg hpp] at hlogged ⊢
    exact hok.named p' v hv hlogged

theorem loopsOk_logout {c : Nat} {p : UserPtr} (hok : LoopsOk s)
    (hphase : s.phase c = .running p) (hidle : s.tasks (.session c) = .idle) :
    LoopsOk { s with
      users := s.users.logoutUser p
      phase := Function.update s.phase c (.loggedOut p) } := by
  refine ⟨hok.lock, fun t l hl => ?_, fun t l i p' hp' => ?_, fun p' u hu hlogged => ?_⟩
  · have hin := hok.inLoop t l hl
    cases t with
    | agent => cases l <;> exact hin
    | session c' =>
        have hcc : c' ≠ c := fun heq => by
          subst heq
          simp only [hidle] at hl
          cases hl
        cases l <;> simpa only [InLoop, Function.update_of_ne hcc] using hin
  · obtain ⟨u, hu, hsession, hname⟩ := hok.addressee t l i p' hp'
    refine ⟨if p' = p then u.logout else u, ?_, ?_, ?_⟩
    · simp only [UserList.logoutUser, Table.get?_modify, hu]
      split <;> rfl
    · by_cases hcc : s.conn p' = c
      · -- It was running, and is behind `logout_user` now.
        rw [hcc, hphase] at hsession
        rcases hsession with heq | heq
        · cases heq
          simp only [hcc, Function.update_self]
          exact .inr trivial
        · cases heq
      · simpa only [Function.update_of_ne hcc] using hsession
    · split <;> exact hname
  · obtain ⟨v, hv, rfl⟩ := Table.exists_of_get?_modify hu
    by_cases hpp : p' = p
    · rw [if_pos hpp] at hlogged
      cases hlogged
    · rw [if_neg hpp] at hlogged ⊢
      obtain ⟨hname, hrunning⟩ := hok.named p' v hv hlogged
      have hcc : s.conn p' ≠ c := fun heq => by
        rw [heq, hphase, FdPhase.running.injEq] at hrunning
        exact hpp hrunning.symm
      exact ⟨hname, by simpa only [Function.update_of_ne hcc] using hrunning⟩

theorem loopsOk_skipNotice {c : Nat} {p : UserPtr} {u : User} (hok : LoopsOk s)
    (hphase : s.phase c = .loggedOut p) (hu : s.users.get? p = some u)
    (hidle : s.tasks (.session c) = .idle) (hnoName : u.nameLength = 0) :
    LoopsOk { s with phase := Function.update s.phase c (.notified p) } := by
  refine hok.advance (by rw [hidle]; rfl) (by rw [hphase]; exact nofun) ?_
  -- Whoever is about to be sent to has a name, or is the session itself.
  rintro t l i p' hp' hcc
  obtain ⟨v, hv, hsession, hname⟩ := hok.addressee t l i p' hp'
  rw [hcc, hphase] at hsession
  rcases hsession with heq | heq
  · cases heq
  · cases heq
    rcases hname with hname | rfl
    · rw [hu, Option.some.injEq] at hv
      exact hname (hv ▸ hnoName)
    · rw [hcc, hidle] at hp'
      cases hp'

/-- `accept` and `close` are steps of a session outside its loops. -/
theorem loopsOk_outside {c : Nat} {φ : FdPhase} {owner : Nat → Option Nat} (hok : LoopsOk s)
    (hrunning : ∀ p, s.phase c ≠ .running p) (hout : ∀ p, s.phase c ≠ .loggedOut p) :
    LoopsOk { s with owner, phase := Function.update s.phase c φ } := by
  obtain ⟨hloop, haddr⟩ := hok.outside hrunning hout
  have hnext := hok.advance (φ := φ) hloop hrunning haddr
  exact ⟨hnext.lock, hnext.inLoop, hnext.addressee, hnext.named⟩

theorem loopsOk_remove {c : Nat} {p : UserPtr} {u : User} (hinv : NumbersOk s) (hok : LoopsOk s)
    (hphase : s.phase c = .closed p) (hu : s.users.get? p = some u) (hlock : s.lock = none) :
    LoopsOk { s with
      users := (s.users.removeUser u.sock).2
      phase := Function.update s.phase c .gone } := by
  rw [UserList.removeUser_of_sockUnique hinv.unique hu]
  refine .of_idle (hok.idle hlock) fun p' v hv hlogged => ?_
  rw [Table.get?_erase] at hv
  split at hv
  · cases hv
  · obtain ⟨hname, hrunning⟩ := hok.named p' v hv hlogged
    have hcc : s.conn p' ≠ c := fun heq => by
      rw [heq, hphase] at hrunning
      cases hrunning
    exact ⟨hname, by simpa only [Function.update_of_ne hcc] using hrunning⟩

theorem inLoop_of_mayBegin {t : FdThread} {l : FdLoop} (hord : Ordinary s (.begin t l))
    (hmay : s.mayBegin t l = true) : InLoop s.phase t l := by
  cases t with
  | agent =>
      cases l with
      | toTargets skip => trivial
      | aboutTargets q => cases hmay
  | session c =>
      simp only [Descriptors.mayBegin] at hmay
      split at hmay
      · exact ⟨_, .inl ‹_›⟩
      · rename_i p q hphase
        rw [InLoop, hphase, hord.self_eq rfl (by rw [hphase]; rfl)]
      · exact ⟨_, .inr ‹_›⟩
      · cases hmay

theorem loopsOk_begin {t : FdThread} {l : FdLoop} (hok : LoopsOk s)
    (hord : Ordinary s (.begin t l)) (hlock : s.lock = none) (hmay : s.mayBegin t l = true) :
    LoopsOk { s with lock := some t, tasks := Function.update s.tasks t (.looping l 0) } := by
  have hidle := hok.idle hlock
  refine ⟨fun t' l' hl' => ?_, fun t' l' hl' => ?_, fun t' l' i p hp => ?_, hok.named⟩
  · by_cases htt : t' = t
    · rw [htt]
    · simp only [Function.update_of_ne htt, hidle t'] at hl'
      cases hl'
  · by_cases htt : t' = t
    · subst htt
      simp only [Function.update_self, FdTask.loop?, Option.some.injEq] at hl'
      subst hl'
      exact inLoop_of_mayBegin (s := s) hord hmay
    · simp only [Function.update_of_ne htt, hidle t'] at hl'
      cases hl'
  · by_cases htt : t' = t
    · subst htt
      simp only [Function.update_self] at hp
      cases hp
    · simp only [Function.update_of_ne htt, hidle t'] at hp
      cases hp

/-- A thread goes on in its loop; if it is about to send, to whom is as `LoopsOk` has it. -/
theorem LoopsOk.goOn (hok : LoopsOk s) {t : FdThread} {l : FdLoop} {task : FdTask}
    (hold : (s.tasks t).loop? = some l) (hnew : task.loop? = some l)
    (haddr : ∀ l' i p, task = .sending l' i p → ∃ u, s.users.get? p = some u ∧
      (s.phase (s.conn p) = .running p ∨ s.phase (s.conn p) = .loggedOut p) ∧
      (u.nameLength ≠ 0 ∨ t = .session (s.conn p))) :
    LoopsOk { s with tasks := Function.update s.tasks t task } := by
  have hsame : ∀ t', (Function.update s.tasks t task t').loop? = (s.tasks t').loop? := by
    intro t'
    by_cases htt : t' = t
    · rw [htt, Function.update_self, hold, hnew]
    · rw [Function.update_of_ne htt]
  refine ⟨fun t' l' hl' => ?_, fun t' l' hl' => ?_, fun t' l' i p hp => ?_, hok.named⟩
  · exact hok.lock t' l' ((hsame t').symm.trans hl')
  · exact hok.inLoop t' l' ((hsame t').symm.trans hl')
  · by_cases htt : t' = t
    · subst htt
      simp only [Function.update_self] at hp
      exact haddr l' i p hp
    · simp only [Function.update_of_ne htt] at hp
      exact hok.addressee t' l' i p hp

/-- A loop picks an entry whose session has a name to tell the others, or its own. -/
theorem loopsOk_pick {t : FdThread} {l : FdLoop} {i : Nat} {e : UserPtr × User}
    (hinv : NumbersOk s) (hok : LoopsOk s) (htask : s.tasks t = .looping l i)
    (he : s.users.entries[i]? = some e) (hpicks : l.picks e = true) :
    LoopsOk { s with tasks := Function.update s.tasks t (.sending l i (l.addressee e.1)) } := by
  have hloop : (s.tasks t).loop? = some l := by rw [htask]; rfl
  refine hok.goOn hloop rfl ?_
  rintro l' i' p ⟨⟩
  have hin := hok.inLoop t l hloop
  cases l with
  | toTargets skip =>
      simp only [FdLoop.picks, Bool.and_eq_true] at hpicks
      have hu := Table.get?_eq_some_iff.mpr (List.mem_of_getElem? he)
      obtain ⟨hname, hrunning⟩ := hok.named e.1 e.2 hu hpicks.2
      exact ⟨e.2, hu, .inl hrunning, .inl hname⟩
  | aboutTargets q =>
      cases t with
      | agent => exact absurd hin id
      | session c =>
          have hphase : s.phase c = .running q := hin
          obtain ⟨u, hu, hconn, -⟩ := hinv.entry c q (by rw [hphase]; rfl)
          exact ⟨u, hu, .inl (by rw [FdLoop.addressee, hconn]; exact hphase),
            .inr (by rw [FdLoop.addressee, hconn])⟩

/-- The end of a loop leaves the sessions alone that are in theirs. -/
theorem afterLoop_running {t : FdThread} {c : Nat} {p : UserPtr}
    (hrunning : s.phase c = .running p) :
    s.afterLoop t c = .running p := by
  cases t with
  | agent => exact hrunning
  | session c' =>
      cases hphase : s.phase c' with
      | loggedOut p' =>
          have hcc : c ≠ c' := fun heq => by
            rw [heq, hphase] at hrunning
            cases hrunning
          simpa only [Descriptors.afterLoop, hphase, Function.update_of_ne hcc] using hrunning
      | _ => simpa only [Descriptors.afterLoop, hphase] using hrunning

theorem loopsOk_finish {t : FdThread} {l : FdLoop} {i : Nat} (hok : LoopsOk s)
    (htask : s.tasks t = .looping l i) :
    LoopsOk { s with
      lock := none
      tasks := Function.update s.tasks t .idle
      phase := s.afterLoop t } := by
  -- The lock was this loop's, so there is no other.
  have hidle : ∀ t', Function.update s.tasks t .idle t' = .idle := by
    intro t'
    by_cases htt : t' = t
    · rw [htt, Function.update_self]
    · rw [Function.update_of_ne htt]
      cases htask' : s.tasks t' with
      | idle => rfl
      | _ =>
          have hlock := hok.lock t' _ (by rw [htask']; rfl)
          rw [hok.lock t l (by rw [htask]; rfl), Option.some.injEq] at hlock
          exact absurd hlock.symm htt
  refine .of_idle hidle fun p u hu hlogged => ?_
  obtain ⟨hname, hrunning⟩ := hok.named p u hu hlogged
  exact ⟨hname, afterLoop_running hrunning⟩

/-- An ordinary step keeps every addressee its number. -/
theorem loopsOk_step (hinv : NumbersOk s) (hok : LoopsOk s) (hord : Ordinary s a)
    (hstep : FdStep s a s' o) : LoopsOk s' := by
  cases hstep with
  | accept hphase hclosed =>
      exact loopsOk_outside hok (by rw [hphase]; exact nofun) (by rw [hphase]; exact nofun)
  | start hp hphase hlock hfind => exact loopsOk_start hok hp hphase hlock
  | inUse hphase hlock hfind =>
      exact loopsOk_outside hok (by rw [hphase]; exact nofun) (by rw [hphase]; exact nofun)
  | startNull hphase => exact hok
  | call hphase hu hfree hk => exact hok
  | login hphase hcode hfree hlock hq =>
      obtain rfl := hord.self_eq rfl (by rw [hphase]; rfl)
      exact loopsOk_login hinv hok hphase hlock (Frame.loginSize_ne_zero hcode)
  | kickNobody hphase hfree hlock hnobody => exact hok
  | kick hphase hfree hlock htarget =>
      rw [hord.noKick _ _ rfl] at htarget
      cases htarget
  | logout hphase hfree hq =>
      obtain rfl := hord.self_eq rfl (by rw [hphase]; rfl)
      exact loopsOk_logout hok hphase hfree
  | skipNotice hphase hu hfree hnoName =>
      obtain rfl := hord.self_eq rfl (by rw [hphase]; rfl)
      exact loopsOk_skipNotice hok hphase hu hfree hnoName
  | close hphase hu hfree =>
      exact loopsOk_outside hok (by rw [hphase]; exact nofun) (by rw [hphase]; exact nofun)
  | remove hphase hu hfree hlock =>
      obtain rfl := hord.self_eq rfl (by rw [hphase]; rfl)
      exact loopsOk_remove hinv hok hphase hu hlock
  | begin hlock hidle hmay => exact loopsOk_begin hok hord hlock hmay
  | pick htask he hpicks => exact loopsOk_pick hinv hok htask he hpicks
  | pass htask he hpicks => exact hok.goOn (by rw [htask]; rfl) rfl nofun
  | finish htask hend => exact loopsOk_finish hok htask
  | send htask hu => exact hok.goOn (by rw [htask]; rfl) rfl nofun

/-! ## Uses -/

/-- Behind the session's own `close`. -/
def FdPhase.isClosed : FdPhase → Bool
  | closed _ | gone => true
  | _ => false

/-- How often the number of connection `c` has been closed. -/
def closes (h : FdHistory) (c : Nat) : Nat :=
  h.countP fun e =>
    match e.2 with
    | .used .close _ _ _ owner => owner = some c
    | _ => false

theorem NumbersOk.use_owner (hinv : NumbersOk s) {c : Nat} {p : UserPtr} {u : User}
    (hp : (s.phase c).user? = some p) (hopen : s.phase c ≠ .closed p)
    (hu : s.users.get? p = some u) : s.owner u.sock = some (s.conn p) := by
  obtain ⟨hconn, howner⟩ := hinv.own hp hu
  rw [hconn]
  exact howner hopen

/-- Every call is made with a number of the connection its entry was created for. -/
theorem owner_of_used {k : FdCall} {p : UserPtr} {c fd : Nat} {owner : Option Nat}
    (hinv : NumbersOk s) (hok : LoopsOk s) (hord : Ordinary s a)
    (hstep : FdStep s a s' (.used k p c fd owner)) : owner = some c := by
  cases hstep with
  | call hphase hu hfree hk =>
      exact hinv.use_owner (hord.ownSelf _ _ rfl) (by rw [hphase]; exact nofun) hu
  | close hphase hu hfree =>
      exact hinv.use_owner (hord.ownSelf _ _ rfl) (by rw [hphase]; exact nofun) hu
  | send htask hu =>
      obtain ⟨-, -, hphase | hphase, -⟩ := hok.addressee _ _ _ _ htask <;>
        exact hinv.use_owner (by rw [hphase]; rfl) (by rw [hphase]; exact nofun) hu
  | kick hphase hfree hlock htarget =>
      rw [hord.noKick _ _ rfl] at htarget
      cases htarget

/-- Only a session closes a number. -/
theorem close_of_used {p : UserPtr} {c fd : Nat} {owner : Option Nat} (hord : Ordinary s a)
    (hstep : FdStep s a s' (.used .close p c fd owner)) : ∃ c' q, a = .close c' q := by
  cases hstep with
  | call hphase hu hfree hk => exact absurd rfl hk
  | close => exact ⟨_, _, rfl⟩
  | kick hphase hfree hlock htarget =>
      rw [hord.noKick _ _ rfl] at htarget
      cases htarget

theorem closes_step (hinv : NumbersOk s) (hok : LoopsOk s) (hord : Ordinary s a)
    (hstep : FdStep s a s' o)
    (hcount : ∀ c, closes h c = if (s.phase c).isClosed then 1 else 0) (c : Nat) :
    closes (h ++ [(a, o)]) c = if (s'.phase c).isClosed then 1 else 0 := by
  by_cases hclose : ∃ c' q, a = .close c' q
  · obtain ⟨c', q, rfl⟩ := hclose
    cases hstep with
    | @close _ _ p u hphase hu hfree =>
        have howner := owner_of_used hinv hok hord (.close hphase hu hfree)
        have hconn := (hinv.own (hord.ownSelf c' q rfl) hu).1
        rw [closes, List.countP_append, ← closes, hcount c]
        simp only [List.countP_singleton, howner, hconn, Option.some.injEq, decide_eq_true_eq]
        by_cases hcc : c' = c
        · subst hcc
          simp [hphase, FdPhase.isClosed]
        · simp [hcc, Function.update_of_ne (Ne.symm hcc)]
  · have hnot : ∀ p c₁ fd owner, o ≠ .used .close p c₁ fd owner := by
      rintro p c₁ fd owner rfl
      exact hclose (close_of_used hord hstep)
    have hsame : closes (h ++ [(a, o)]) c = closes h c := by
      rw [closes, List.countP_append, ← closes, List.countP_singleton]
      split
      · rename_i hused
        exact absurd hused (hnot _ _ _ _)
      · rfl
    rw [hsame, hcount c]
    rcases phase_of_step hstep with hphase | ⟨c', φ, hphase, hadv⟩
    · rw [hphase]
    · rw [hphase]
      by_cases hcc : c = c'
      · subst hcc
        rw [Function.update_self]
        generalize s.phase c = φ₀ at hadv ⊢
        cases hadv with
        | close => exact absurd ⟨_, _, rfl⟩ hclose
        | _ => rfl
      · rw [Function.update_of_ne hcc]

/-! ## The result -/

/-- **Descriptor ownership.** In every run in which the numbers fit a `u16`, each thread finds its
own entry in `self` and no `/kick` finds its target: every number that is read from, sent to or
closed belongs to the connection its entry was created for, and the number of a connection is
closed exactly once. -/
theorem uses_own (hrun : Run fdMachine ordinary h s) :
    (∀ a k p c fd owner, (a, .used k p c fd owner) ∈ h → owner = some c) ∧
      ∀ c, closes h c = if (s.phase c).isClosed then 1 else 0 := by
  have hall : (NumbersOk s ∧ LoopsOk s) ∧
      (∀ a k p c fd owner, (a, .used k p c fd owner) ∈ h → owner = some c) ∧
      ∀ c, closes h c = if (s.phase c).isClosed then 1 else 0 := by
    refine hrun.invariant (I := fun h s => (NumbersOk s ∧ LoopsOk s) ∧
      (∀ a k p c fd owner, (a, .used k p c fd owner) ∈ h → owner = some c) ∧
      ∀ c, closes h c = if (s.phase c).isClosed then 1 else 0) ?_ ?_
    · refine ⟨⟨numbersOk_init, loopsOk_init⟩, ?_, fun c => rfl⟩
      intro a k p c fd owner hmem
      cases hmem
    · rintro h s a s' o ⟨⟨hinv, hok⟩, huses, hcount⟩ hg hstep
      replace hstep : FdStep s a s' o := fdStep_inv hstep
      refine ⟨⟨numbersOk_step hinv hg hstep, loopsOk_step hinv hok hg hstep⟩, ?_,
        closes_step hinv hok hg hstep hcount⟩
      intro a' k p c fd owner hmem
      rcases List.mem_append.mp hmem with hold | hnew
      · exact huses a' k p c fd owner hold
      · cases List.mem_singleton.mp hnew
        exact owner_of_used hinv hok hg hstep
  exact hall.2

/-- A client logs in, leaves while others are connected, and its number goes to the next one. -/
theorem uses_own_leaves :
    ∃ h s, Run fdMachine ordinary h s ∧ s.phase 2 = .running 10 ∧ s.owner 5 = some 2 ∧
      (∀ a k p c fd owner, (a, .used k p c fd owner) ∈ h → owner = some c) ∧ closes h 0 = 1 := by
  obtain ⟨h, s, hrun, hP⟩ := Run.exists_of_replay (M := fdMachine) (G := ordinary)
    [.accept 0 5, .start 0 10 1, .call 0 10 .recv, .call 0 10 .read,
      .login 0 10 (.login 8 (lit "bob")) ⟨1, 0, [], []⟩, .accept 1 6, .start 1 20 2,
      .login 1 20 (.login 8 (lit "eve")) ⟨2, 0, [], []⟩,
      .begin .agent (.toTargets none), .test .agent, .logout 0 10, .send .agent, .test .agent,
      .send .agent, .test .agent,
      .begin (.session 0) (.toTargets (some 10)), .test (.session 0), .test (.session 0),
      .send (.session 0), .test (.session 0), .close 0 10, .remove 0 10,
      .accept 2 5, .start 2 10 3]
    (fun _ s => decide (s.phase 2 = .running 10) && decide (s.owner 5 = some 2) &&
      decide (s.phase 0 = .gone)) (by decide +kernel)
  simp only [Bool.and_eq_true, decide_eq_true_eq] at hP
  obtain ⟨⟨hthird, howner⟩, hgone⟩ := hP
  obtain ⟨huses, hcloses⟩ := uses_own hrun
  refine ⟨h, s, hrun, hthird, howner, huses, ?_⟩
  rw [hcloses 0, hgone]
  rfl

/-- "bob" on number 5 is kicked, the number goes to the next connection, and the agent sends
the next message for "bob" to it. -/
theorem not_own_kicked :
    ∃ h s s', Run fdMachine oneSelf h s ∧ s.owner 5 = some 2 ∧ s.conn 10 = 0 ∧
      fdStep s (.send .agent) = some (s', .used .send 10 0 5 (some 2)) := by
  obtain ⟨h, s, s', o, hrun, -, hstep, hP⟩ := Run.exists_step_of_replay (M := fdMachine)
    (G := oneSelf)
    [.accept 0 5, .start 0 10 1, .call 0 10 .recv, .call 0 10 .read,
      .login 0 10 (.login 8 (lit "bob")) ⟨1, 0, [], []⟩, .accept 1 6, .start 1 20 2,
      .call 1 20 .recv, .call 1 20 .read,
      .login 1 20 (.login 10 (lit "Admin")) ⟨2, 0, [], []⟩, .call 1 20 .recv, .call 1 20 .read,
      .kick 1 (lit "bob"),
      .accept 2 5, .call 1 20 .recv, .call 1 20 .read,
      .begin .agent (.toTargets none), .test .agent]
    (.send .agent)
    (fun _ s _ o => decide (s.owner 5 = some 2) && decide (s.conn 10 = 0) &&
      decide (o = .used .send 10 0 5 (some 2))) (by decide +kernel)
  simp only [Bool.and_eq_true, decide_eq_true_eq] at hP
  obtain ⟨⟨howner, hconn⟩, rfl⟩ := hP
  exact ⟨h, s, s', hrun, howner, hconn, hstep⟩

end LinuxChat
