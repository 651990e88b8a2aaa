import LinuxChat.Logic.LockSpec

/-!
# Balanced locks

A call that starts with `userLock` and `LogLock` free returns with both free,
and touches neither wrongly in between, except in two cases: `create_User`
returns with `userLock` where it gets no memory, and `remove_Entry` with
`LogLock` where it finds no entry (`balanced_iff`). Calls that stay out of
these two never block on a lock of their own, in any order.
-/

namespace LinuxChat

open Mutex Trace

/-- The call starts and ends with both locks free, and faults on neither. -/
def Balanced (env : LogEnv) (call : LockCall) (sh : Shared) : Prop :=
  Runs (call.prog env) sh ∅ ∅ fun _ _ => True

/-- There is memory for a new entry, and an entry to remove. -/
def LockCall.Provided (sh : Shared) : LockCall → Prop
  | createUser malloc _ sock =>
      (sh.users.findUser sock).isSome = true ∨ (malloc sh.users).isSome = true
  | removeEntry threadID => (sh.log.threadNames.lookup threadID).isSome = true
  | removeUser _ | findUser _ | isNameFree _ | loginUser .. | outputMessage .. | sendLoop ..
  | kickLoop _ => True

instance (sh : Shared) : (call : LockCall) → Decidable (call.Provided sh)
  | .createUser .. => inferInstanceAs (Decidable (_ ∨ _))
  | .removeEntry _ => inferInstanceAs (Decidable (_ = true))
  | .removeUser _ | .findUser _ | .isNameFree _ | .loginUser .. | .outputMessage .. | .sendLoop ..
  | .kickLoop _ => isTrue trivial

variable {env : LogEnv} {call : LockCall} {sh : Shared} {α : Type} {x : LockCode α}
  {H H' : Finset ServerLock} {Q : α → Shared → Prop}

/-- The result of a call does not matter to the locks. -/
theorem runs_discard (h : x.Runs sh H H' Q) :
    Code.Runs (do let _ ← x) sh H H' fun _ _ => True :=
  h.bind fun _ _ _ => Code.Runs.pure trivial

open Locked

/-- Each function keeps the balance where it is provided for. -/
theorem balanced_of_provided (h : call.Provided sh) : Balanced env call sh := by
  have hs : Lists sh.users sh.log.threadNames sh := ⟨rfl, rfl⟩
  cases call with
  | createUser malloc threadID sock => exact runs_discard (createUser_runs hs h)
  | removeUser sock => exact runs_discard (removeUser_runs hs sock)
  | findUser sock => exact runs_discard (findUser_runs (by decide) (by decide) hs sock)
  | isNameFree name => exact runs_discard (isNameFree_runs hs name)
  | loginUser target name size => exact runs_discard (loginUser_runs hs target name size)
  | outputMessage level message threadID =>
      exact (outputMessage_runs (by decide) hs level message threadID).conseq fun _ _ _ => trivial
  | removeEntry threadID => exact (removeEntry_runs hs h).conseq fun _ _ _ => trivial
  | sendLoop l ok => exact runs_discard (sendLoop_runs hs ok l)
  | kickLoop nameToKick => exact runs_discard (kickLoop_runs hs nameToKick)

/-- The two exceptions are no better than their condition. -/
theorem provided_of_balanced (h : Balanced env call sh) : call.Provided sh := by
  have hs : Lists sh.users sh.log.threadNames sh := ⟨rfl, rfl⟩
  cases call with
  | createUser malloc threadID sock =>
      by_contra hno
      rw [LockCall.Provided, not_or, Option.not_isSome_iff_eq_none,
        Option.not_isSome_iff_eq_none] at hno
      -- It ends with `userLock`, and in one way only.
      have hkeeps := @createUser_keeps _ _ _ env hs malloc threadID sock hno.1 hno.2
      exact absurd (h.held_eq (runs_discard hkeeps)) (by decide)
  | removeEntry threadID =>
      by_contra hno
      rw [LockCall.Provided, Option.not_isSome_iff_eq_none] at hno
      have hkeeps := removeEntry_keeps hs hno
      exact absurd (h.held_eq hkeeps) (by decide)
  | removeUser sock => trivial
  | findUser sock => trivial
  | isNameFree name => trivial
  | loginUser target name size => trivial
  | outputMessage level message threadID => trivial
  | sendLoop l ok => trivial
  | kickLoop nameToKick => trivial

/-- Every call is provided for. -/
def providedCalls : Guard (Shared × Finset ServerLock) LockCall LockOut :=
  fun _ st call => call.Provided st.1

instance (h : History LockCall LockOut) (st : Shared × Finset ServerLock) (call : LockCall) :
    Decidable (providedCalls h st call) := inferInstanceAs (Decidable (call.Provided st.1))

/-- A balanced call returns with both locks free. -/
theorem lockStep_of_balanced {st : Shared × Finset ServerLock} {o : LockOut}
    (h : Balanced env call sh) (hstep : lockStep env (sh, ∅) call = some (st, o)) :
    st.2 = ∅ ∧ o = .returned := by
  obtain ⟨u, sh', hrun, -⟩ := h
  rw [lockStep, hrun] at hstep
  cases hstep
  exact ⟨rfl, rfl⟩

/-- Before and after every call of a run both locks are free, and every call returns. -/
theorem run_balanced {h : History LockCall LockOut} {st : Shared × Finset ServerLock}
    (hrun : Run (lockMachine env sh) providedCalls h st) :
    st.2 = ∅ ∧ ∀ e ∈ h, e.2 = .returned := by
  refine Run.invariant (I := fun h st => st.2 = ∅ ∧ ∀ e ∈ h, e.2 = .returned) ?_ ?_ hrun
  · exact ⟨rfl, fun e he => by cases he⟩
  · rintro h ⟨sh, H⟩ call st' o ⟨rfl, hreturned⟩ hprovided hstep
    obtain ⟨hfree, ho⟩ := lockStep_of_balanced (balanced_of_provided hprovided) hstep
    refine ⟨hfree, fun e he => ?_⟩
    rcases List.mem_append.mp he with he | he
    · exact hreturned e he
    · rw [List.mem_singleton.mp he]
      exact ho

/-- **The locks are balanced.** Whatever the lists hold and `malloc` returns, a call that starts
with both locks free returns with both free, without locking what it holds or unlocking what it
does not hold, if and only if it is not `create_User` without memory for a new socket or
`remove_Entry` without an entry; and no sequence of such calls blocks its thread. -/
theorem balanced_iff {env : LogEnv} :
    (∀ (call : LockCall) (sh : Shared), Balanced env call sh ↔ call.Provided sh) ∧
    ∀ {sh : Shared} {h : History LockCall LockOut} {st : Shared × Finset ServerLock},
      Run (lockMachine env sh) providedCalls h st → st.2 = ∅ ∧ ∀ e ∈ h, e.2 = .returned :=
  ⟨fun _ _ => ⟨provided_of_balanced, balanced_of_provided⟩, run_balanced⟩

/-- A line that is its message. -/
def plainLog : LogEnv := ⟨1, fun _ _ message => message, fun _ => lit "message", lit "error"⟩

/-- No users, no thread names, nothing sent. -/
def noLists : Shared := ⟨Table.empty, .init ⟨.info, [], true, [], []⟩, []⟩

/-- Two calls, of which the first finds memory. -/
theorem balanced_created :
    ∃ h st, Run (lockMachine plainLog noLists) providedCalls h st ∧ h.length = 2 ∧ st.2 = ∅ ∧
      ∀ e ∈ h, e.2 = .returned := by
  obtain ⟨h, st, hrun, hlen⟩ := Run.exists_of_replay
    (M := lockMachine plainLog noLists) (G := providedCalls)
    [.createUser (fun l => if h : 1 ∈ l.keys then none else some ⟨1, h⟩) 1 5,
      .isNameFree (lit "bob")]
    (fun h _ => decide (h.length = 2)) (by decide +kernel)
  exact ⟨h, st, hrun, of_decide_eq_true hlen, balanced_iff.2 hrun⟩

/-- Without memory `create_User` keeps `userLock`, and the next lookup blocks on it. -/
theorem blocks_without_memory :
    ¬ Balanced plainLog (.createUser (fun _ => none) 1 5) noLists ∧
    ∃ h st, Run (lockMachine plainLog noLists) anyStep h st ∧ st.2 = {.userLock} ∧
      h.map Prod.snd = [.returned, .fault (.relock .userLock)] := by
  constructor
  · intro hbalanced
    rcases provided_of_balanced hbalanced with hfound | hmalloc
    · cases hfound
    · cases hmalloc
  · obtain ⟨h, st, hrun, hP⟩ := Run.exists_of_replay
      (M := lockMachine plainLog noLists) (G := anyStep)
      [.createUser (fun _ => none) 1 5, .findUser 5]
      (fun h st => decide (st.2 = {.userLock}) &&
        decide (h.map Prod.snd = [.returned, .fault (.relock .userLock)])) (by decide +kernel)
    rw [Bool.and_eq_true, decide_eq_true_eq, decide_eq_true_eq] at hP
    exact ⟨h, st, hrun, hP⟩

end LinuxChat
