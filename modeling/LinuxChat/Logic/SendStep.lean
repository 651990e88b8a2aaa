import LinuxChat.Model.Sending

/-!
# What a step between sends does

One constructor for each step of a live process, of its loops and of the
peers, with its guards, the state it leaves and what it shows.
-/

namespace LinuxChat

open CMem Trace

/-- The steps of `liveStep`. -/
inductive SendStep (s : Sending) : SendAct → Sending → SendOut → Prop
  | accept {fd} : s.conns fd = .closed →
      SendStep s (.accept fd) { s with conns := Function.update s.conns fd .established } .quiet
  | reset {fd} : s.conns fd = .established →
      SendStep s (.reset fd) { s with conns := Function.update s.conns fd .reset } .quiet
  | close {fd} :
      SendStep s (.close fd) { s with conns := Function.update s.conns fd .closed } .quiet
  | createUser {p thread fd} (hp : p ∉ s.users.keys) : s.lock = none →
      SendStep s (.createUser p thread fd)
        { s with users := (s.users.createUser p thread fd hp).2 } .quiet
  | loginUser {p name size} : s.lock = none →
      SendStep s (.loginUser p name size) { s with users := s.users.loginUser p name size } .quiet
  | logoutUser {p} :
      SendStep s (.logoutUser p) { s with users := s.users.logoutUser p } .quiet
  | removeUser {fd} : s.lock = none →
      SendStep s (.removeUser fd) { s with users := (s.users.removeUser fd).2 } .quiet
  | begin {l} : s.lock = none → s.tasks l.thread = .idle → l.ownSock s.users →
      SendStep s (.begin l)
        { s with
          lock := some l.thread
          tasks := Function.update s.tasks l.thread (.looping l 0) }
        .quiet
  | pick {t l i e} : s.tasks t = .looping l i → s.users.entries[i]? = some e →
      l.picks e = true →
      SendStep s (.test t)
        { s with
          tasks := Function.update s.tasks t (.sending l i e.1 (l.call e).1 (l.call e).2) }
        .quiet
  | pass {t l i e} : s.tasks t = .looping l i → s.users.entries[i]? = some e →
      l.picks e ≠ true →
      SendStep s (.test t) { s with tasks := Function.update s.tasks t (.looping l (i + 1)) }
        .quiet
  | finish {t l i} : s.tasks t = .looping l i → s.users.entries[i]? = none →
      SendStep s (.test t)
        { s with lock := none, tasks := Function.update s.tasks t .idle } (.finished l)
  | reply {p m rest u} : s.users.get? p = some u → s.tasks (.client p) = .idle →
      SendStep s (.reply p m rest)
        { s with tasks := Function.update s.tasks (.client p) (.replying u.sock m rest) } .quiet
  | send {t ok fd m} : (s.tasks t).call? = some (fd, m) →
      SendStep s (.send t ok)
        { s with
          tasks := Function.update s.tasks t (s.tasks t).next
          alive := (networkSend (s.conns fd) m ok).isSome }
        (.called fd m (s.tasks t).target? (networkSend (s.conns fd) m ok))

theorem liveStep_inv {s s' : Sending} {a : SendAct} {o : SendOut}
    (hstep : liveStep s a = some (s', o)) : SendStep s a s' o := by
  cases a with
  | accept fd =>
      simp only [liveStep] at hstep
      split at hstep
      · rename_i hclosed
        cases hstep
        exact .accept hclosed
      · cases hstep
  | reset fd =>
      simp only [liveStep] at hstep
      split at hstep
      · rename_i hopen
        cases hstep
        exact .reset hopen
      · cases hstep
  | close fd =>
      cases hstep
      exact .close
  | createUser p thread fd =>
      simp only [liveStep] at hstep
      split at hstep
      · cases hstep
      · rename_i hp
        split at hstep
        · rename_i hlock
          cases hstep
          exact .createUser hp hlock
        · cases hstep
  | loginUser p name size =>
      simp only [liveStep] at hstep
      split at hstep
      · rename_i hlock
        cases hstep
        exact .loginUser hlock
      · cases hstep
  | logoutUser p =>
      cases hstep
      exact .logoutUser
  | removeUser fd =>
      simp only [liveStep] at hstep
      split at hstep
      · rename_i hlock
        cases hstep
        exact .removeUser hlock
      · cases hstep
  | begin l =>
      simp only [liveStep] at hstep
      split at hstep
      · rename_i hfree
        cases hstep
        exact .begin hfree.1 hfree.2.1 hfree.2.2
      · cases hstep
  | test t =>
      simp only [liveStep] at hstep
      split at hstep
      · rename_i l i htask
        split at hstep
        · rename_i e he
          split at hstep
          · rename_i hpicks
            cases hstep
            exact .pick htask he hpicks
          · rename_i hpicks
            cases hstep
            exact .pass htask he hpicks
        · rename_i hend
          cases hstep
          exact .finish htask hend
      · cases hstep
  | reply p m rest =>
      simp only [liveStep] at hstep
      split at hstep
      · rename_i u hu htask
        cases hstep
        exact .reply hu htask
      · cases hstep
  | send t ok =>
      simp only [liveStep] at hstep
      split at hstep
      · rename_i fd m hcall
        cases hstep
        exact .send hcall
      · cases hstep

theorem sendStep_inv {s s' : Sending} {a : SendAct} {o : SendOut}
    (hstep : sendStep s a = some (s', o)) : s.alive = true ∧ SendStep s a s' o := by
  simp only [sendStep] at hstep
  split at hstep
  · rename_i halive
    exact ⟨halive, liveStep_inv hstep⟩
  · cases hstep

end LinuxChat
