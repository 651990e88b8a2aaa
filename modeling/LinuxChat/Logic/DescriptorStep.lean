import LinuxChat.Logic.FrameSpec
import LinuxChat.Model.Descriptors

/-!
# What a step does to numbers and entries

One constructor for each step of the kernel, the sessions and the loops, with
its guards, the state it leaves and what it shows. The invariants over
interleavings are case analyses of this relation.
-/

namespace LinuxChat

open CMem Trace

/-- The steps of `fdStep`. -/
inductive FdStep (s : Descriptors) : FdAct → Descriptors → FdOut → Prop
  | accept {c fd} : s.phase c = .unborn → s.owner fd = none →
      FdStep s (.accept c fd)
        { s with
          owner := Function.update s.owner fd (some c)
          phase := Function.update s.phase c (.accepted fd) }
        .quiet
  | start {c p thread fd} (hp : p ∉ s.users.keys) : s.phase c = .accepted fd → s.lock = none →
      s.users.findUser (toU16 fd) = none →
      FdStep s (.start c p thread)
        { s with
          users := s.users.append p (User.fresh thread (toU16 fd)) hp
          conn := Function.update s.conn p c
          phase := Function.update s.phase c (.running p) }
        (.started (some p))
  | inUse {c p thread fd} : s.phase c = .accepted fd → s.lock = none →
      s.users.findUser (toU16 fd) ≠ none →
      FdStep s (.start c p thread) { s with phase := Function.update s.phase c .unseated }
        (.started none)
  | startNull {c} : s.phase c = .unseated → FdStep s (.startNull c) s .fault
  | call {c q k p u} : s.phase c = .running p → s.users.get? q = some u → s.free c →
      k ≠ .close →
      FdStep s (.call c q k) s (.used k q (s.conn q) u.sock (s.owner u.sock))
  | login {c q f env p} : s.phase c = .running p → f.code = .receivedLogin → s.free c →
      s.lock = none → q ∈ s.users.keys →
      FdStep s (.login c q f env)
        { s with
          users := s.users.loginUser q (loginMem env f.msg f.announced) (loginSize f.announced) }
        .quiet
  | kickNobody {c name p} : s.phase c = .running p → s.free c → s.lock = none →
      kickTarget s.users name = none →
      FdStep s (.kick c name) s .quiet
  | kick {c name p target v} : s.phase c = .running p → s.free c → s.lock = none →
      kickTarget s.users name = some (target, v) →
      FdStep s (.kick c name)
        { s with
          users := s.users.userShouldShutdown target
          owner := Function.update s.owner v.sock none }
        (.used .close target (s.conn target) v.sock (s.owner v.sock))
  | logout {c q p} : s.phase c = .running p → s.free c → q ∈ s.users.keys →
      FdStep s (.logout c q)
        { s with
          users := s.users.logoutUser q
          phase := Function.update s.phase c (.loggedOut p) }
        .quiet
  | skipNotice {c q p u} : s.phase c = .loggedOut p → s.users.get? q = some u → s.free c →
      u.nameLength = 0 →
      FdStep s (.skipNotice c q) { s with phase := Function.update s.phase c (.notified p) } .quiet
  | close {c q p u} : s.phase c = .notified p → s.users.get? q = some u → s.free c →
      FdStep s (.close c q)
        { s with
          owner := Function.update s.owner u.sock none
          phase := Function.update s.phase c (.closed p) }
        (.used .close q (s.conn q) u.sock (s.owner u.sock))
  | remove {c q p u} : s.phase c = .closed p → s.users.get? q = some u → s.free c →
      s.lock = none →
      FdStep s (.remove c q)
        { s with
          users := (s.users.removeUser u.sock).2
          phase := Function.update s.phase c .gone }
        .quiet
  | begin {t l} : s.lock = none → s.tasks t = .idle → s.mayBegin t l = true →
      FdStep s (.begin t l)
        { s with lock := some t, tasks := Function.update s.tasks t (.looping l 0) } .quiet
  | pick {t l i e} : s.tasks t = .looping l i → s.users.entries[i]? = some e →
      l.picks e = true →
      FdStep s (.test t)
        { s with tasks := Function.update s.tasks t (.sending l i (l.addressee e.1)) } .quiet
  | pass {t l i e} : s.tasks t = .looping l i → s.users.entries[i]? = some e →
      l.picks e = false →
      FdStep s (.test t) { s with tasks := Function.update s.tasks t (.looping l (i + 1)) } .quiet
  | finish {t l i} : s.tasks t = .looping l i → s.users.entries[i]? = none →
      FdStep s (.test t)
        { s with
          lock := none
          tasks := Function.update s.tasks t .idle
          phase := s.afterLoop t }
        .quiet
  | send {t l i p u} : s.tasks t = .sending l i p → s.users.get? p = some u →
      FdStep s (.send t) { s with tasks := Function.update s.tasks t (.looping l (i + 1)) }
        (.used .send p (s.conn p) u.sock (s.owner u.sock))

theorem fdStep_inv {s s' : Descriptors} {a : FdAct} {o : FdOut}
    (hstep : fdStep s a = some (s', o)) : FdStep s a s' o := by
  cases a with
  | accept c fd =>
      simp only [fdStep] at hstep
      split at hstep
      · rename_i hfree
        cases hstep
        exact .accept hfree.1 hfree.2
      · cases hstep
  | start c p thread =>
      simp only [fdStep, UserList.createUser] at hstep
      split at hstep
      · rename_i fd hphase
        split at hstep
        · cases hstep
        · rename_i hp
          split at hstep
          · rename_i hlock
            cases hfind : s.users.findUser (toU16 fd) with
            | none =>
                simp only [hfind, Option.isSome_none, Bool.false_eq_true, if_false] at hstep
                cases hstep
                exact .start hp hphase hlock hfind
            | some q =>
                simp only [hfind, Option.isSome_some, if_true] at hstep
                cases hstep
                exact .inUse hphase hlock (by rw [hfind]; exact Option.some_ne_none q)
          · cases hstep
      · cases hstep
  | startNull c =>
      simp only [fdStep] at hstep
      split at hstep
      · rename_i hphase
        cases hstep
        exact .startNull hphase
      · cases hstep
  | call c q k =>
      simp only [fdStep] at hstep
      split at hstep
      · rename_i p u hphase hu
        split at hstep
        · rename_i hk
          cases hstep
          exact .call hphase hu hk.1 hk.2
        · cases hstep
      · cases hstep
  | login c q f env =>
      simp only [fdStep, f.received_eq] at hstep
      split at hstep
      · rename_i p _ _ _ hphase hreceived
        simp only [Received.frame.injEq] at hreceived
        obtain ⟨-, hcode, rfl, -⟩ := hreceived
        split at hstep
        · rename_i hfree
          cases hstep
          exact .login hphase hcode hfree.1 hfree.2.1 hfree.2.2
        · cases hstep
      · cases hstep
  | kick c name =>
      simp only [fdStep] at hstep
      split at hstep
      · rename_i p hphase
        split at hstep
        · rename_i hfree
          split at hstep
          · rename_i hnobody
            cases hstep
            exact .kickNobody hphase hfree.1 hfree.2 hnobody
          · rename_i target v htarget
            cases hstep
            exact .kick hphase hfree.1 hfree.2 htarget
        · cases hstep
      · cases hstep
  | logout c q =>
      simp only [fdStep] at hstep
      split at hstep
      · rename_i p hphase
        split at hstep
        · rename_i hfree
          cases hstep
          exact .logout hphase hfree.1 hfree.2
        · cases hstep
      · cases hstep
  | skipNotice c q =>
      simp only [fdStep] at hstep
      split at hstep
      · rename_i p u hphase hu
        split at hstep
        · rename_i hfree
          cases hstep
          exact .skipNotice hphase hu hfree.1 hfree.2
        · cases hstep
      · cases hstep
  | close c q =>
      simp only [fdStep] at hstep
      split at hstep
      · rename_i p u hphase hu
        split at hstep
        · rename_i hfree
          cases hstep
          exact .close hphase hu hfree
        · cases hstep
      · cases hstep
  | remove c q =>
      simp only [fdStep] at hstep
      split at hstep
      · rename_i p u hphase hu
        split at hstep
        · rename_i hfree
          cases hstep
          exact .remove hphase hu hfree.1 hfree.2
        · cases hstep
      · cases hstep
  | begin t l =>
      simp only [fdStep] at hstep
      split at hstep
      · rename_i hfree
        cases hstep
        exact .begin hfree.1 hfree.2.1 hfree.2.2
      · cases hstep
  | test t =>
      simp only [fdStep] at hstep
      split at hstep
      · rename_i l i htask
        split at hstep
        · rename_i e he
          cases hstep
          cases hpicks : l.picks e with
          | true => exact .pick htask he hpicks
          | false => exact .pass htask he hpicks
        · rename_i hend
          cases hstep
          exact .finish htask hend
      · cases hstep
  | send t =>
      simp only [fdStep] at hstep
      split at hstep
      · rename_i l i p htask
        split at hstep
        · rename_i u hu
          cases hstep
          exact .send htask hu
        · cases hstep
      · cases hstep

end LinuxChat
