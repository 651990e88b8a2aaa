import Mathlib.Data.Finset.Card
import LinuxChat.Logic.BroadcastStep
import LinuxChat.Model.Senders

/-!
# No sender waits

`broadcast_message` tests the queue and sends in two steps, and nothing
reserves the place in between. The threads that have passed the test count as
messages still to come (`inSend`); where the test is passed only while these
and the queue leave room, no `mq_send` finds the queue full. What is refused
are then texts, each with its reply, unless a login's notice is: its thread
does not look at the result.
-/

namespace LinuxChat

open CMem Trace

/-- The steps of the senders, and what each of them does to the outside. -/
abbrev SenderHistory := History SenderAct (BroadcastOut QueueMessage × List Output)

variable {cfg : Config} {h : SenderHistory} {s s' : Senders}
  {o : BroadcastOut QueueMessage × List Output}

/-- What a step makes of the number of threads in `mq_send`. -/
def inSendUpdate (n : Nat) : SenderAct × BroadcastOut QueueMessage × List Output → Nat
  | (.bus (.test _), .quiet, _) => n + 1
  | (.bus (.send _), _, _) => n - 1
  | _ => n

/-- The threads that have passed the test of the queue and not yet sent. -/
def inSend (h : SenderHistory) : Nat := h.foldl inSendUpdate 0

@[simp] theorem inSend_snoc (h : SenderHistory)
    (e : SenderAct × BroadcastOut QueueMessage × List Output) :
    inSend (h ++ [e]) = inSendUpdate (inSend h) e := by
  simp [inSend, List.foldl_append]

/-- A thread passes the test of the queue only while the messages in the queue and the threads
in `mq_send` leave room for one more, and a login's call passes it. -/
def leavesRoom : Guard Senders SenderAct (BroadcastOut QueueMessage × List Output) :=
  fun h s a =>
    match a with
    | .bus (.test c) =>
        (s.bus.curmsgs < mqMaxmsg → s.bus.queue.length + inSend h < mqMaxmsg) ∧
          ((s.sites c).any CallSite.isLogin = true → s.bus.curmsgs < mqMaxmsg)
    | _ => True

instance (h : SenderHistory) (s : Senders) : (a : SenderAct) → Decidable (leavesRoom h s a)
  | .bus (.test _) => inferInstanceAs (Decidable ((_ < _ → _ < _) ∧ (_ = true → _ < _)))
  | .call .. | .bus (.getattr ..) | .bus (.send _) | .bus .receive | .bus .receiveFails
  | .bus .wait | .bus .deliver | .bus .post | .bus .pauseTest | .bus .pauseWait | .bus .pauseFlag
  | .bus .resumeTest | .bus .resumePost | .bus .resumeFlag => isTrue trivial

/-! ## The places in the queue -/

/-- The callers in `mq_send` are those of `S`. -/
def SendersAre (S : Finset UserPtr) (b : Broadcast UserPtr QueueMessage) : Prop :=
  ∀ p, p ∈ S ↔ ∃ m, b.callers p = some (.sending, m)

/-- Queue and threads in `mq_send` together fit into the queue. -/
structure Reserved (h : SenderHistory) (b : Broadcast UserPtr QueueMessage) : Prop where
  senders : ∃ S : Finset UserPtr, SendersAre S b ∧ S.card = inSend h
  room : b.queue.length + inSend h ≤ mqMaxmsg

theorem SendersAre.update {S : Finset UserPtr} {b b' : Broadcast UserPtr QueueMessage}
    (hS : SendersAre S b) {p : UserPtr} {next : Option (SendPhase × QueueMessage)}
    (hcallers : b'.callers = Function.update b.callers p next)
    (hold : ∀ m, b.callers p ≠ some (.sending, m)) (hnext : ∀ m, next ≠ some (.sending, m)) :
    SendersAre S b' := by
  intro q
  rw [hS q, hcallers]
  by_cases hqp : q = p
  · subst hqp
    rw [Function.update_self]
    exact iff_of_false (by rintro ⟨m, hm⟩; exact hold m hm) (by rintro ⟨m, hm⟩; exact hnext m hm)
  · rw [Function.update_of_ne hqp]

/-- A step that neither passes the test nor sends keeps the places. -/
theorem Reserved.same {b b' : Broadcast UserPtr QueueMessage} (hinv : Reserved h b)
    {e : SenderAct × BroadcastOut QueueMessage × List Output}
    (hcount : inSend (h ++ [e]) = inSend h)
    (hsenders : ∀ S, SendersAre S b → SendersAre S b')
    (hqueue : b'.queue.length ≤ b.queue.length) : Reserved (h ++ [e]) b' := by
  obtain ⟨⟨S, hS, hcard⟩, hroom⟩ := hinv
  exact ⟨⟨S, hsenders S hS, by rw [hcount, hcard]⟩, by rw [hcount]; omega⟩

theorem reserved_call {b b' : Broadcast UserPtr QueueMessage} (hinv : Reserved h b) {p : UserPtr}
    {m : QueueMessage} {o : BroadcastOut QueueMessage} {site : CallSite} {out : List Output}
    (hstep : broadcastStep b (.getattr p m) = some (b', o)) :
    Reserved (h ++ [(.call p site, o, out)]) b' := by
  simp only [broadcastStep] at hstep
  split at hstep <;> cases hstep
  rename_i hnone
  refine hinv.same (by simp [inSendUpdate]) (fun S hS => ?_) (le_refl _)
  exact hS.update rfl (fun m hm => by rw [hnone] at hm; cases hm) (fun m hm => by cases hm)

/-- Passing the test takes a place; a refused caller takes none. -/
theorem reserved_test {b b' : Broadcast UserPtr QueueMessage} (hinv : Reserved h b) {c : UserPtr}
    {o : BroadcastOut QueueMessage} {out : List Output}
    (hroom : b.curmsgs < mqMaxmsg → b.queue.length + inSend h < mqMaxmsg)
    (hstep : broadcastStep b (.test c) = some (b', o)) :
    Reserved (h ++ [(.bus (.test c), o, out)]) b' := by
  obtain ⟨S, hS, hcard⟩ := hinv.senders
  simp only [broadcastStep] at hstep
  split at hstep
  · rename_i m hc
    have htesting : ∀ m', b.callers c ≠ some (.sending, m') := fun m' hm' => by
      rw [hc] at hm'
      cases hm'
    split at hstep
    · rename_i hcur
      cases hstep
      have hlt := hroom hcur
      have hcount : inSend (h ++ [(.bus (.test c), .quiet, out)]) = inSend h + 1 := by
        simp [inSendUpdate]
      have hout : c ∉ S := fun hmem => by
        obtain ⟨m', hm'⟩ := (hS c).mp hmem
        exact htesting m' hm'
      refine ⟨⟨insert c S, fun q => ?_, ?_⟩, ?_⟩
      · simp only [Finset.mem_insert]
        by_cases hqc : q = c
        · subst hqc
          rw [Function.update_self]
          exact iff_of_true (.inl rfl) ⟨m, rfl⟩
        · rw [Function.update_of_ne hqc, hS q]
          exact ⟨fun hq => hq.resolve_left hqc, .inr⟩
      · rw [Finset.card_insert_of_notMem hout, hcard, hcount]
      · rw [hcount]
        exact hlt
    · cases hstep
      refine hinv.same (by simp [inSendUpdate]) (fun S hS => ?_) (le_refl _)
      exact hS.update rfl htesting fun m' hm' => by cases hm'
  · cases hstep

/-- A message that is sent takes the place of its caller. -/
theorem reserved_send {b b' : Broadcast UserPtr QueueMessage} (hinv : Reserved h b) {c : UserPtr}
    {o : BroadcastOut QueueMessage} {out : List Output}
    (hstep : broadcastStep b (.send c) = some (b', o)) :
    Reserved (h ++ [(.bus (.send c), o, out)]) b' := by
  obtain ⟨S, hS, hcard⟩ := hinv.senders
  have hle := hinv.room
  simp only [broadcastStep] at hstep
  split at hstep
  · rename_i m hc
    split at hstep <;> cases hstep
    have hmem : c ∈ S := (hS c).mpr ⟨m, hc⟩
    have hcount : inSend (h ++ [(.bus (.send c), .returned m true, out)]) = inSend h - 1 := by
      simp [inSendUpdate]
    have hpos : 0 < S.card := Finset.card_pos.mpr ⟨c, hmem⟩
    refine ⟨⟨S.erase c, fun q => ?_, ?_⟩, ?_⟩
    · simp only [Finset.mem_erase]
      by_cases hqc : q = c
      · subst hqc
        rw [Function.update_self]
        exact iff_of_false (fun hq => hq.1 rfl) (by rintro ⟨m', hm'⟩; cases hm')
      · rw [Function.update_of_ne hqc, hS q]
        exact ⟨fun hq => hq.2, fun hq => ⟨hqc, hq⟩⟩
    · rw [Finset.card_erase_of_mem hmem, hcard, hcount]
    · rw [hcount, List.length_append, List.length_singleton]
      omega
  · cases hstep

theorem reserved_bus {b b' : Broadcast UserPtr QueueMessage} (hinv : Reserved h b)
    {a : BroadcastAct UserPtr QueueMessage} {o : BroadcastOut QueueMessage} {out : List Output}
    (hroom : ∀ c, a = .test c → b.curmsgs < mqMaxmsg → b.queue.length + inSend h < mqMaxmsg)
    (hno : ∀ c m, a ≠ .getattr c m) (hstep : broadcastStep b a = some (b', o)) :
    Reserved (h ++ [(.bus a, o, out)]) b' := by
  cases a with
  | getattr c m => exact absurd rfl (hno c m)
  | test c => exact reserved_test hinv (hroom c rfl) hstep
  | send c => exact reserved_send hinv hstep
  | receive =>
      simp only [broadcastStep] at hstep
      split at hstep
      · rename_i m queue hagent hqueue
        cases hstep
        refine hinv.same (by simp [inSendUpdate]) (fun S hS => hS) ?_
        rw [hqueue, List.length_cons]
        exact Nat.le_succ _
      · cases hstep
  | _ =>
      simp only [broadcastStep] at hstep
      split at hstep <;> cases hstep
      exact hinv.same (by simp [inSendUpdate]) (fun S hS => hS) (le_refl _)

theorem senderStep_bus {a : BroadcastAct UserPtr QueueMessage}
    (hstep : senderStep cfg s (.bus a) = some (s', o)) :
    (∀ c m, a ≠ .getattr c m) ∧ ∃ b, broadcastStep s.bus a = some (b, o.1) ∧
      s' = { s with bus := b } ∧ o.2 = senderOut cfg s a o.1 := by
  have hsome : ∀ {r : Option (Broadcast UserPtr QueueMessage × BroadcastOut QueueMessage)},
      r.map (fun r => ({ s with bus := r.1 }, r.2, senderOut cfg s a r.2)) = some (s', o) →
      ∃ b, r = some (b, o.1) ∧ s' = { s with bus := b } ∧ o.2 = senderOut cfg s a o.1 := by
    intro r hr
    obtain ⟨⟨b, o₁⟩, rfl, heq⟩ := Option.map_eq_some_iff.mp hr
    cases heq
    exact ⟨b, rfl, rfl, rfl⟩
  cases a with
  | getattr c m => cases hstep
  | _ => exact ⟨by rintro c m ⟨⟩, hsome hstep⟩

theorem run_reserved (hrun : Run (senderMachine cfg) leavesRoom h s) : Reserved h s.bus := by
  refine hrun.invariant (I := fun h s => Reserved h s.bus) ?_ ?_
  · refine ⟨⟨∅, fun p => ?_, rfl⟩, Nat.zero_le _⟩
    simp [senderMachine, Senders.init, Broadcast.init]
  · rintro h s a s' o hinv hg hstep
    replace hstep : senderStep cfg s a = some (s', o) := hstep
    cases a with
    | call p site =>
        simp only [senderStep, Option.map_eq_some_iff] at hstep
        obtain ⟨⟨b, o₁⟩, hb, heq⟩ := hstep
        cases heq
        exact reserved_call hinv hb
    | bus a =>
        obtain ⟨hno, b, hb, rfl, -⟩ := senderStep_bus hstep
        refine reserved_bus hinv (fun c hc => ?_) hno hb
        subst hc
        exact hg.1

/-! ## Calls -/

/-- The own next step of a caller. -/
def SendPhase.act (p : UserPtr) : SendPhase → BroadcastAct UserPtr QueueMessage
  | .testing => .test p
  | .sending => .send p

/-- A caller in its own next step: it passes the test, or its call returns, with TRUE and the
message at the end of the queue, or with FALSE, the queue as it was and the refusal handled as
at its call site. -/
inductive Proceeds (cfg : Config) (s : Senders) (p : UserPtr) (m : QueueMessage)
    (site : CallSite) : SendPhase → Prop
  | passed (t : Senders) (hstep : senderStep cfg s (.bus (.test p)) = some (t, .quiet, []))
      (hqueue : t.bus.queue = s.bus.queue) (hcaller : t.bus.callers p = some (.sending, m)) :
      Proceeds cfg s p m site .testing
  | refused (t : Senders) (hstep : senderStep cfg s (.bus (.test p)) =
        some (t, .returned m false, site.afterCall cfg false))
      (hqueue : t.bus.queue = s.bus.queue) (hcaller : t.bus.callers p = none) :
      Proceeds cfg s p m site .testing
  | sent (t : Senders) (hstep : senderStep cfg s (.bus (.send p)) =
        some (t, .returned m true, site.afterCall cfg true))
      (hqueue : t.bus.queue = s.bus.queue ++ [m]) (hcaller : t.bus.callers p = none) :
      Proceeds cfg s p m site .sending

/-- A caller that finds no full queue in `mq_send` proceeds. -/
theorem proceeds_of_room {p : UserPtr} {φ : SendPhase} {m : QueueMessage} {site : CallSite}
    (hcaller : s.bus.callers p = some (φ, m)) (hsite : s.sites p = some site)
    (hroom : φ = .sending → s.bus.queue.length < mqMaxmsg) : Proceeds cfg s p m site φ := by
  cases φ with
  | testing =>
      by_cases hcur : s.bus.curmsgs < mqMaxmsg
      · refine .passed { s with bus := { s.bus with
          callers := Function.update s.bus.callers p (some (.sending, m)) } } ?_ rfl ?_
        · simp [senderStep, broadcastStep, hcaller, hcur, senderOut]
        · exact Function.update_self ..
      · refine .refused { s with bus := { s.bus with
          callers := Function.update s.bus.callers p none } } ?_ rfl ?_
        · simp [senderStep, broadcastStep, hcaller, hcur, senderOut, BroadcastAct.caller, hsite]
        · exact Function.update_self ..
  | sending =>
      refine .sent { s with bus := { s.bus with
        queue := s.bus.queue ++ [m]
        callers := Function.update s.bus.callers p none } } ?_ rfl ?_
      · simp [senderStep, broadcastStep, hcaller, hroom rfl, senderOut, BroadcastAct.caller, hsite]
      · exact Function.update_self ..

/-- A caller is in the call its call site makes. -/
theorem run_sites {G : Guard Senders SenderAct (BroadcastOut QueueMessage × List Output)}
    (hrun : Run (senderMachine cfg) G h s) {p : UserPtr} {φ : SendPhase} {m : QueueMessage}
    (hcaller : s.bus.callers p = some (φ, m)) :
    ∃ site, s.sites p = some site ∧ m = ⟨none, site.message.msg⟩ := by
  refine hrun.invariant (I := fun _ s => ∀ p φ m, s.bus.callers p = some (φ, m) →
    ∃ site, s.sites p = some site ∧ m = ⟨none, site.message.msg⟩) ?_ ?_ p φ m hcaller
  · intro p φ m hcaller
    cases hcaller
  · rintro h s a s' o hinv - hstep p φ m hcaller
    replace hstep : senderStep cfg s a = some (s', o) := hstep
    cases a with
    | call q site =>
        simp only [senderStep, Option.map_eq_some_iff] at hstep
        obtain ⟨⟨b, o₁⟩, hb, heq⟩ := hstep
        cases heq
        rcases broadcastStep_caller_of hb hcaller with ⟨φ', hold⟩ | hnew
        · by_cases hpq : p = q
          · -- Whoever is in a call makes no second one.
            subst hpq
            simp [broadcastStep, hold] at hb
          · obtain ⟨site', hsite, hm⟩ := hinv p φ' m hold
            exact ⟨site', by simpa [hpq] using hsite, hm⟩
        · cases hnew
          exact ⟨site, Function.update_self .., rfl⟩
    | bus a =>
        obtain ⟨hno, b, hb, rfl, -⟩ := senderStep_bus hstep
        rcases broadcastStep_caller_of hb hcaller with ⟨φ', hold⟩ | hnew
        · exact hinv p φ' m hold
        · exact absurd hnew (hno p m)

/-- A refused call is one of a text, and its sender gets the reply. -/
structure Refused (cfg : Config) (m : QueueMessage) (out : List Output) : Prop where
  replied : ∃ u f env, m = ⟨none, (CallSite.text u f env).message.msg⟩ ∧
    out = [queueFullReply cfg u f env]

/-- Where the calls of logins find room, whatever a step refuses is a text. -/
theorem refused_step (hrun : Run (senderMachine cfg) leavesRoom h s) {a : SenderAct}
    (hguard : leavesRoom h s a) {m : QueueMessage} {out : List Output}
    (hstep : senderStep cfg s a = some (s', .returned m false, out)) : Refused cfg m out := by
  cases a with
  | call p site =>
      simp only [senderStep, Option.map_eq_some_iff] at hstep
      obtain ⟨⟨b, o⟩, hb, heq⟩ := hstep
      cases heq
      cases broadcastStep_move hb
  | bus a =>
      obtain ⟨-, b, hb, -, hout⟩ := senderStep_bus hstep
      cases broadcastStep_move hb with
      | @refused _ c _ hcaller hfull hqueue hhand hcallers =>
          obtain ⟨site, hsite, hm⟩ := run_sites hrun hcaller
          cases site with
          | login u env =>
              exact absurd (hguard.2 (by rw [hsite]; rfl)) hfull
          | text u f env =>
              refine ⟨u, f, env, hm, ?_⟩
              rw [show out = senderOut cfg s (.test c) (.returned m false) from hout]
              simp [senderOut, BroadcastAct.caller, hsite, CallSite.afterCall]

/-- Every refusal in the history of a run is one of a text, with its reply. -/
theorem run_refused (hrun : Run (senderMachine cfg) leavesRoom h s) {a : SenderAct}
    {m : QueueMessage} {out : List Output} (hmem : (a, .returned m false, out) ∈ h) :
    Refused cfg m out := by
  obtain ⟨h₁, h₂, rfl⟩ := List.append_of_mem hmem
  obtain ⟨s₀, s₁, hrun₀, hguard, hstep⟩ := hrun.of_append_cons
  exact refused_step hrun₀ hguard hstep

/-- The thread of `p` is in a call for `m`: it is in `mq_send` only while the queue has a place,
and its own next step ends the call or takes it into `mq_send`. -/
structure Returns (cfg : Config) (s : Senders) (p : UserPtr) (φ : SendPhase)
    (m : QueueMessage) : Prop where
  room : φ = .sending → s.bus.queue.length < mqMaxmsg
  proceeds : ∃ site, s.sites p = some site ∧ m = ⟨none, site.message.msg⟩ ∧
    Proceeds cfg s p m site φ

theorem run_returns (hrun : Run (senderMachine cfg) leavesRoom h s) {p : UserPtr}
    {φ : SendPhase} {m : QueueMessage} (hcaller : s.bus.callers p = some (φ, m)) :
    Returns cfg s p φ m := by
  have hroom : φ = .sending → s.bus.queue.length < mqMaxmsg := by
    rintro rfl
    obtain ⟨⟨S, hS, hcard⟩, hle⟩ := run_reserved hrun
    have hpos : 0 < S.card := Finset.card_pos.mpr ⟨p, (hS p).mpr ⟨m, hcaller⟩⟩
    omega
  obtain ⟨site, hsite, hm⟩ := run_sites hrun hcaller
  exact ⟨hroom, site, hsite, hm, proceeds_of_room hcaller hsite hroom⟩

/-- **`broadcast_message` never enters a blocking send.** In every run in which the test of
the queue is passed only while queue and senders leave room, and by the calls of logins
always: no thread is in `mq_send` while the queue is full, every call returns, after at most
two steps of its own, with TRUE exactly when its message was put on the queue, and whoever's
message was refused has sent a text and gets the reply. -/
theorem never_blocks (hrun : Run (senderMachine cfg) leavesRoom h s) :
    (∀ p φ m, s.bus.callers p = some (φ, m) → Returns cfg s p φ m) ∧
      ∀ a m out, (a, .returned m false, out) ∈ h → Refused cfg m out :=
  ⟨fun _ _ _ hcaller => run_returns hrun hcaller, fun _ _ _ hmem => run_refused hrun hmem⟩

/-! ## Runs -/

/-- In this step a call of `broadcast_message` returns FALSE. -/
def BroadcastOut.refuses {μ : Type} : BroadcastOut μ → Bool
  | .returned _ sent => !sent
  | .quiet | .delivered _ => false

theorem BroadcastOut.exists_of_refuses {μ : Type} {o : BroadcastOut μ}
    (h : o.refuses = true) : ∃ m, o = .returned m false := by
  cases o with
  | returned m sent =>
      rw [BroadcastOut.refuses, Bool.not_eq_true'] at h
      exact ⟨m, by rw [h]⟩
  | quiet => cases h
  | delivered m => cases h

/-- The thread of `p` calls `broadcast_message` for its text. -/
def speaks (p : UserPtr) : SenderAct :=
  .call p (.text (User.fresh 1 p) .zero ⟨1, 0, [], []⟩)

/-- The thread of `p` calls `broadcast_message` for its login. -/
def joins (p : UserPtr) : SenderAct := .call p (.login (User.fresh 1 p) ⟨1, 0, [], []⟩)

/-- `n` texts are put on the queue. -/
def textsQueued (n : Nat) : List SenderAct :=
  (List.range n).flatMap fun p => [speaks p, .bus (.test p), .bus (.send p)]

/-- With nine texts in the queue, the thread that passes the test has its place; with the
tenth, the next text is refused and its sender gets the reply. -/
theorem never_blocks_nine :
    (∃ h s m, Run (senderMachine .default) leavesRoom h s ∧ s.bus.queue.length = 9 ∧
      s.bus.callers 9 = some (.sending, m) ∧ Returns .default s 9 .sending m) ∧
    ∃ h s m out, Run (senderMachine .default) leavesRoom h s ∧
      (.bus (.test 10), .returned m false, out) ∈ h ∧ Refused .default m out := by
  constructor
  · obtain ⟨h, s, hrun, hP⟩ := Run.exists_of_replay (M := senderMachine .default)
      (G := leavesRoom) (textsQueued 9 ++ [speaks 9, .bus (.test 9)])
      (fun _ s => decide (s.bus.queue.length = 9) &&
        (s.bus.callers 9).any fun c => decide (c.1 = SendPhase.sending)) (by decide +kernel)
    rw [Bool.and_eq_true, decide_eq_true_eq] at hP
    obtain ⟨⟨φ, m⟩, hcaller, hφ⟩ := (Option.any_eq_true _ _).mp hP.2
    obtain rfl : φ = .sending := of_decide_eq_true hφ
    exact ⟨h, s, m, hrun, hP.1, hcaller, (never_blocks hrun).1 9 .sending m hcaller⟩
  · obtain ⟨h, s, t, ⟨o, out⟩, hrun, hguard, hstep, hP⟩ :=
      Run.exists_step_of_replay (M := senderMachine .default) (G := leavesRoom)
        (textsQueued 10 ++ [speaks 10]) (.bus (.test 10)) (fun _ _ _ o => o.1.refuses)
        (by decide +kernel)
    obtain ⟨m, rfl⟩ : ∃ m, o = .returned m false := BroadcastOut.exists_of_refuses hP
    refine ⟨_, t, m, out, hrun.step hguard hstep, by simp, ?_⟩
    exact (never_blocks (hrun.step hguard hstep)).2 (.bus (.test 10)) m out (by simp)

/-- Two threads pass the test with nine texts in the queue: the second finds it full. With ten
texts in the queue the notice of a login is refused, and nobody is told. -/
theorem blocks_two_senders :
    (∃ h s m, Run (senderMachine .default) anyStep h s ∧ s.bus.queue.length = mqMaxmsg ∧
      s.bus.callers 10 = some (.sending, m) ∧
      senderStep .default s (.bus (.send 10)) = none) ∧
    ∃ h s t m, Run (senderMachine .default) anyStep h s ∧
      senderStep .default s (.bus (.test 10)) = some (t, .returned m false, []) := by
  constructor
  · obtain ⟨h, s, hrun, hP⟩ := Run.exists_of_replay (M := senderMachine .default) (G := anyStep)
      (textsQueued 9 ++ [speaks 9, speaks 10, .bus (.test 9), .bus (.test 10), .bus (.send 9)])
      (fun _ s => decide (s.bus.queue.length = mqMaxmsg) &&
        ((s.bus.callers 10).any fun c => decide (c.1 = SendPhase.sending)) &&
        (senderStep .default s (.bus (.send 10))).isNone) (by decide +kernel)
    simp only [Bool.and_eq_true, decide_eq_true_eq, Option.isNone_iff_eq_none] at hP
    obtain ⟨⟨hlen, hcaller⟩, hnone⟩ := hP
    obtain ⟨⟨φ, m⟩, hcaller, hφ⟩ := (Option.any_eq_true _ _).mp hcaller
    obtain rfl : φ = .sending := of_decide_eq_true hφ
    exact ⟨h, s, m, hrun, hlen, hcaller, hnone⟩
  · obtain ⟨h, s, t, ⟨o, out⟩, hrun, -, hstep, hP⟩ :=
      Run.exists_step_of_replay (M := senderMachine .default) (G := anyStep)
        (textsQueued 10 ++ [joins 10]) (.bus (.test 10))
        (fun _ _ _ o => o.1.refuses && o.2.isEmpty) (by decide +kernel)
    rw [Bool.and_eq_true, List.isEmpty_iff] at hP
    obtain ⟨m, rfl⟩ : ∃ m, o = .returned m false := BroadcastOut.exists_of_refuses hP.1
    obtain rfl : out = [] := hP.2
    exact ⟨h, s, t, m, hrun, hstep⟩

end LinuxChat
