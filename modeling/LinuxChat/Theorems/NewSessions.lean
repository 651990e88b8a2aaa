import LinuxChat.Logic.Numbers

/-!
# A new connection gets a session

`close(self->sock)` gives the number back before `remove_User(self->sock)`
takes the entry with that number out of the list. A connection accepted in
between may get the number, and its `create_User` finds the socket in use.
-/

namespace LinuxChat

open CMem Trace

variable {h : FdHistory} {s s' : Descriptors} {a : FdAct} {o : FdOut}

/-- `create_User` returns an entry, and no null `self` is followed. -/
def getsSession : Guard Descriptors FdAct FdOut := fun _ s a =>
  Ordinary s a ∧ ∀ s' o, fdStep s a = some (s', o) → o ≠ .started none ∧ o ≠ .fault

/-- No session starts on a number whose last session is between `close` and `remove_User`. -/
def startsOnFree : Guard Descriptors FdAct FdOut := fun _ s a =>
  Ordinary s a ∧ ∀ c p thread fd, a = .start c p thread → s.phase c = .accepted fd →
    ∀ c' p' u, s.phase c' = .closed p' → s.users.get? p' = some u → u.sock ≠ fd

/-- An entry with the number of a new connection is that of a session behind its `close`. -/
theorem NumbersOk.findUser_eq_none_iff (hinv : NumbersOk s) {c fd : Nat}
    (hphase : s.phase c = .accepted fd) : s.users.findUser (toU16 fd) = none ↔
      ∀ c' p' u, s.phase c' = .closed p' → s.users.get? p' = some u → u.sock ≠ fd := by
  obtain ⟨howner, hsmall⟩ := hinv.accepted c fd hphase
  rw [toU16_of_lt hsmall, UserList.findUser_eq_none]
  constructor
  · exact fun hfree c' p' u _ hu => hfree p' u hu
  · rintro hclosed p u hu rfl
    have hsession := hinv.session p u hu
    have hown := hinv.own hsession hu
    by_cases hc : s.phase (s.conn p) = .closed p
    · exact hclosed _ p u hc hu rfl
    · -- The number would belong to both connections.
      rw [hown.2 hc, Option.some.injEq] at howner
      rw [howner, hphase] at hsession
      cases hsession

/-- Only a `create_User` that returns NULL leaves a session without an entry. -/
theorem unseated_of_step (hstep : FdStep s a s' o) {c : Nat}
    (hc : s'.phase c = .unseated) : s.phase c = .unseated ∨ o = .started none := by
  rcases phase_of_step hstep with hsame | ⟨c', φ, hphase, hadv⟩
  · rw [hsame] at hc
    exact .inl hc
  · rw [hphase] at hc
    by_cases hcc : c = c'
    · subst hcc
      rw [Function.update_self] at hc
      rw [hc] at hadv
      generalize s.phase c = φ₀ at hadv
      cases hadv
      exact .inr rfl
    · rw [Function.update_of_ne hcc] at hc
      exact .inl hc

/-- **A new connection gets a session**, in a run of ordinary steps whose numbers fit a `u16`,
exactly when no session starts on a number whose last session is between `close` and
`remove_User`. -/
theorem getsSession_iff : Run fdMachine getsSession h s ↔ Run fdMachine startsOnFree h s := by
  refine Run.iff_of_guards (I := fun _ s => NumbersOk s ∧ ∀ c, s.phase c ≠ .unseated)
    ⟨numbersOk_init, fun c hc => by cases hc⟩ ?_ ?_
  · rintro h s a s' o ⟨hinv, hseated⟩ hg hstep
    refine ⟨numbersOk_step hinv hg.1 (fdStep_inv hstep), fun c hc => ?_⟩
    rcases unseated_of_step (fdStep_inv hstep) hc with hold | hnull
    · exact hseated c hold
    · exact (hg.2 s' o hstep).1 hnull
  · rintro h s a s' o ⟨hinv, hseated⟩ hstep
    refine and_congr_right fun hord => ⟨?_, ?_⟩
    · rintro hgets c p thread fd rfl hphase
      have hcases : FdStep s (.start c p thread) s' o := fdStep_inv hstep
      cases hcases with
      | start hp hphase' hlock hfind =>
          rw [hphase, FdPhase.accepted.injEq] at hphase'
          subst hphase'
          exact (hinv.findUser_eq_none_iff hphase).mp hfind
      | inUse => exact absurd rfl (hgets _ _ hstep).1
    · intro hfree s₁ o₁ hstep₁
      refine ⟨?_, ?_⟩
      · rintro rfl
        cases fdStep_inv hstep₁ with
        | @inUse c p thread fd hphase hlock hfind =>
            exact hfind ((hinv.findUser_eq_none_iff hphase).mpr (hfree c p thread fd rfl hphase))
      · rintro rfl
        cases fdStep_inv hstep₁ with
        | @startNull c hphase => exact hseated c hphase

/-! ## A number between its two sessions -/

/-- The number of a client that has hung up goes to the next connection before `remove_User`:
its `create_User` returns NULL, and its thread follows it. -/
theorem not_getsSession_reused :
    ∃ h s s', Run fdMachine (fun h s a => Ordinary s a ∧ oneSelf h s a) h s ∧
      s.phase 0 = .closed 10 ∧ fdStep s (.start 1 20 2) = some (s', .started none) ∧
      fdStep s' (.startNull 1) = some (s', .fault) ∧ ¬ getsSession h s (.start 1 20 2) := by
  obtain ⟨h, s, s', o, hrun, -, hstep, hP⟩ := Run.exists_step_of_replay (M := fdMachine)
    (G := fun h s a => Ordinary s a ∧ oneSelf h s a)
    [.accept 0 5, .start 0 10 1, .call 0 10 .recv, .logout 0 10, .skipNotice 0 10, .close 0 10,
      .accept 1 5]
    (.start 1 20 2)
    (fun _ s s' o => decide (s.phase 0 = .closed 10) && decide (o = .started none) &&
      decide (s'.phase 1 = .unseated)) (by decide +kernel)
  simp only [Bool.and_eq_true, decide_eq_true_eq] at hP
  obtain ⟨⟨hclosed, rfl⟩, hunseated⟩ := hP
  exact ⟨h, s, s', hrun, hclosed, hstep, if_pos hunseated,
    fun hgets => (hgets.2 s' _ hstep).1 rfl⟩

end LinuxChat
