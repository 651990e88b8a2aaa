import LinuxChat.Model.Broadcast

/-!
# What a step does to the messages

A step of `broadcastagent.c`, seen from the messages on their way: the
callers, the queue and the agent's hand before and after it, and what it
shows. Every other step leaves the three alone.
-/

namespace LinuxChat

open Trace

variable {ι μ : Type}

/-- The messages on their way, and what a step shows. -/
inductive BusMove [DecidableEq ι] (s : Broadcast ι μ) :
    BroadcastAct ι μ → Broadcast ι μ → BroadcastOut μ → Prop
  | getattr {s' c m} : s.callers c = none → s'.queue = s.queue → s'.hand = s.hand →
      s'.callers = Function.update s.callers c (some (.testing, m)) →
      BusMove s (.getattr c m) s' .quiet
  | passed {s' c m} : s.callers c = some (.testing, m) → s.curmsgs < mqMaxmsg →
      s'.queue = s.queue → s'.hand = s.hand →
      s'.callers = Function.update s.callers c (some (.sending, m)) →
      BusMove s (.test c) s' .quiet
  | refused {s' c m} : s.callers c = some (.testing, m) → ¬ s.curmsgs < mqMaxmsg →
      s'.queue = s.queue → s'.hand = s.hand → s'.callers = Function.update s.callers c none →
      BusMove s (.test c) s' (.returned m false)
  | sent {s' c m} : s.callers c = some (.sending, m) → s'.queue = s.queue ++ [m] →
      s'.hand = s.hand → s'.callers = Function.update s.callers c none →
      BusMove s (.send c) s' (.returned m true)
  | received {s' m} : s.queue = m :: s'.queue → s.hand = [] → s'.hand = [m] →
      s'.callers = s.callers → BusMove s .receive s' .quiet
  | failed {s'} : s.hand = [] → s'.queue = s.queue → s'.callers = s.callers →
      BusMove s .receiveFails s' .quiet
  | delivered {s'} : s.hand = s.buffer.toList → s'.queue = s.queue → s'.hand = [] →
      s'.callers = s.callers → BusMove s .deliver s' (.delivered s.buffer)
  | other {a s'} : s'.queue = s.queue → s'.hand = s.hand → s'.callers = s.callers →
      BusMove s a s' .quiet

theorem broadcastStep_move [DecidableEq ι] {s s' : Broadcast ι μ} {a : BroadcastAct ι μ}
    {o : BroadcastOut μ} (hstep : broadcastStep s a = some (s', o)) : BusMove s a s' o := by
  cases a with
  | getattr c m =>
      simp only [broadcastStep] at hstep
      split at hstep <;> cases hstep
      rename_i hc
      exact .getattr hc rfl rfl rfl
  | test c =>
      simp only [broadcastStep] at hstep
      split at hstep
      · rename_i m hc
        split at hstep <;> cases hstep
        · rename_i hroom
          exact .passed hc hroom rfl rfl rfl
        · rename_i hroom
          exact .refused hc hroom rfl rfl rfl
      · cases hstep
  | send c =>
      simp only [broadcastStep] at hstep
      split at hstep
      · rename_i m hc
        split at hstep <;> cases hstep
        exact .sent hc rfl rfl rfl
      · cases hstep
  | receive =>
      simp only [broadcastStep] at hstep
      split at hstep
      · rename_i m queue hagent hqueue
        cases hstep
        exact .received hqueue (by simp [Broadcast.hand, hagent]) rfl rfl
      · cases hstep
  | receiveFails =>
      simp only [broadcastStep] at hstep
      split at hstep <;> cases hstep
      rename_i hagent
      exact .failed (by simp [Broadcast.hand, hagent]) rfl rfl
  | wait =>
      simp only [broadcastStep] at hstep
      split at hstep <;> cases hstep
      rename_i hagent
      exact .other rfl (by simp [Broadcast.hand, hagent.1]) rfl
  | deliver =>
      simp only [broadcastStep] at hstep
      split at hstep <;> cases hstep
      rename_i hagent
      exact .delivered (by simp [Broadcast.hand, hagent]) rfl rfl rfl
  | post =>
      simp only [broadcastStep] at hstep
      split at hstep <;> cases hstep
      rename_i hagent
      exact .other rfl (by simp [Broadcast.hand, hagent]) rfl
  | _ =>
      simp only [broadcastStep] at hstep
      split at hstep <;> cases hstep
      exact .other rfl rfl rfl

/-! ## One message -/

/-- A caller keeps its message until it is refused or its message is in the queue. -/
theorem broadcastStep_caller [DecidableEq ι] {s s' : Broadcast ι μ} {a : BroadcastAct ι μ}
    {o : BroadcastOut μ} (hstep : broadcastStep s a = some (s', o)) {c : ι} {φ : SendPhase} {m : μ}
    (hc : s.callers c = some (φ, m)) :
    (∃ φ', s'.callers c = some (φ', m)) ∨ (a = .test c ∧ ¬ s.curmsgs < mqMaxmsg) ∨
      m ∈ s'.queue := by
  have hother : ∀ {d next}, s'.callers = Function.update s.callers d next → c ≠ d →
      ∃ φ', s'.callers c = some (φ', m) := by
    intro d next hcallers hcd
    exact ⟨φ, by rw [hcallers, Function.update_of_ne hcd, hc]⟩
  cases broadcastStep_move hstep with
  | getattr hd _ _ hcallers => exact .inl (hother hcallers (by rintro rfl; simp [hc] at hd))
  | @passed _ d m' hd _ _ _ hcallers =>
      by_cases hcd : c = d
      · subst hcd
        simp only [hc, Option.some.injEq, Prod.mk.injEq] at hd
        exact .inl ⟨.sending, by rw [hcallers, Function.update_self, hd.2]⟩
      · exact .inl (hother hcallers hcd)
  | @refused _ d m' _ hfull _ _ hcallers =>
      by_cases hcd : c = d
      · exact .inr (.inl ⟨by rw [hcd], hfull⟩)
      · exact .inl (hother hcallers hcd)
  | @sent _ d m' hd hqueue _ hcallers =>
      by_cases hcd : c = d
      · subst hcd
        simp only [hc, Option.some.injEq, Prod.mk.injEq] at hd
        exact .inr (.inr (by simp [hqueue, hd.2]))
      · exact .inl (hother hcallers hcd)
  | received _ _ _ hcallers => exact .inl ⟨φ, by rw [hcallers, hc]⟩
  | failed _ _ hcallers => exact .inl ⟨φ, by rw [hcallers, hc]⟩
  | delivered _ _ _ hcallers => exact .inl ⟨φ, by rw [hcallers, hc]⟩
  | other _ _ hcallers => exact .inl ⟨φ, by rw [hcallers, hc]⟩

/-- A message in the queue or in the agent's hand stays there until it is delivered. -/
theorem broadcastStep_onWay [DecidableEq ι] {s s' : Broadcast ι μ} {a : BroadcastAct ι μ}
    {o : BroadcastOut μ} (hstep : broadcastStep s a = some (s', o)) {m : μ}
    (hm : m ∈ s.hand ++ s.queue) : m ∈ s'.hand ++ s'.queue ∨ o = .delivered (some m) := by
  cases broadcastStep_move hstep with
  | getattr _ hqueue hhand _ => exact .inl (by rwa [hqueue, hhand])
  | passed _ _ hqueue hhand _ => exact .inl (by rwa [hqueue, hhand])
  | refused _ _ hqueue hhand _ => exact .inl (by rwa [hqueue, hhand])
  | sent _ hqueue hhand _ =>
      rw [hqueue, hhand, ← List.append_assoc]
      exact .inl (List.mem_append_left _ hm)
  | received hqueue hhand hhand' _ =>
      rw [hqueue, hhand] at hm
      rw [hhand']
      exact .inl hm
  | failed hhand hqueue _ =>
      rw [hhand, List.nil_append] at hm
      rw [hqueue]
      exact .inl (List.mem_append_right _ hm)
  | delivered hhand hqueue _ _ =>
      rw [hhand, List.mem_append] at hm
      rcases hm with hm | hm
      · exact .inr (by rw [Option.mem_toList.mp hm])
      · rw [hqueue]
        exact .inl (List.mem_append_right _ hm)
  | other hqueue hhand _ => exact .inl (by rwa [hqueue, hhand])

theorem broadcastStep_getattr [DecidableEq ι] {s s' : Broadcast ι μ} {c : ι} {m : μ}
    {o : BroadcastOut μ} (hstep : broadcastStep s (.getattr c m) = some (s', o)) :
    o = .quiet ∧ s'.callers c = some (.testing, m) := by
  simp only [broadcastStep] at hstep
  split at hstep <;> cases hstep
  exact ⟨rfl, Function.update_self ..⟩

/-- What the agent delivers is what is in its buffer. -/
theorem broadcastStep_delivered [DecidableEq ι] {s s' : Broadcast ι μ} {a : BroadcastAct ι μ}
    {m : Option μ} (hstep : broadcastStep s a = some (s', .delivered m)) :
    a = .deliver ∧ s.buffer = m := by
  cases broadcastStep_move hstep with
  | delivered => exact ⟨rfl, rfl⟩

/-! ## Which messages there are -/

/-- A message some variable of `broadcastagent.c` holds. -/
def Broadcast.Carries (s : Broadcast ι μ) (m : μ) : Prop :=
  s.buffer = some m ∨ m ∈ s.queue ∨ ∃ c φ, s.callers c = some (φ, m)

/-- A caller comes with its message. -/
theorem broadcastStep_caller_of [DecidableEq ι] {s s' : Broadcast ι μ} {a : BroadcastAct ι μ}
    {o : BroadcastOut μ} (hstep : broadcastStep s a = some (s', o)) {c : ι} {φ' : SendPhase}
    {m : μ} (hc : s'.callers c = some (φ', m)) :
    (∃ φ, s.callers c = some (φ, m)) ∨ a = .getattr c m := by
  have hother : ∀ {d next}, s'.callers = Function.update s.callers d next → c ≠ d →
      ∃ φ, s.callers c = some (φ, m) := by
    intro d next hcallers hcd
    exact ⟨φ', by rw [← hc, hcallers, Function.update_of_ne hcd]⟩
  cases broadcastStep_move hstep with
  | @getattr _ d m' _ _ _ hcallers =>
      by_cases hcd : c = d
      · subst hcd
        rw [hcallers, Function.update_self, Option.some.injEq, Prod.mk.injEq] at hc
        exact .inr (by rw [hc.2])
      · exact .inl (hother hcallers hcd)
  | @passed _ d m' hd _ _ _ hcallers =>
      by_cases hcd : c = d
      · subst hcd
        rw [hcallers, Function.update_self, Option.some.injEq, Prod.mk.injEq] at hc
        exact .inl ⟨.testing, by rw [hd, hc.2]⟩
      · exact .inl (hother hcallers hcd)
  | @refused _ d m' _ _ _ _ hcallers =>
      refine .inl (hother hcallers ?_)
      rintro rfl
      rw [hcallers, Function.update_self] at hc
      cases hc
  | @sent _ d m' _ _ _ hcallers =>
      refine .inl (hother hcallers ?_)
      rintro rfl
      rw [hcallers, Function.update_self] at hc
      cases hc
  | received _ _ _ hcallers => exact .inl ⟨φ', by rw [← hcallers, hc]⟩
  | failed _ _ hcallers => exact .inl ⟨φ', by rw [← hcallers, hc]⟩
  | delivered _ _ _ hcallers => exact .inl ⟨φ', by rw [← hcallers, hc]⟩
  | other _ _ hcallers => exact .inl ⟨φ', by rw [← hcallers, hc]⟩

/-- New messages come in by `broadcast_message` only. -/
theorem broadcastStep_carries [DecidableEq ι] {s s' : Broadcast ι μ} {a : BroadcastAct ι μ}
    {o : BroadcastOut μ} (hstep : broadcastStep s a = some (s', o)) {m : μ} (hm : s'.Carries m) :
    s.Carries m ∨ ∃ c, a = .getattr c m := by
  -- Three places a message can be in: the buffer, the queue, a caller.
  have hcaller : ∀ {c φ}, s'.callers c = some (φ, m) → s.Carries m ∨ ∃ c, a = .getattr c m := by
    intro c φ hc
    rcases broadcastStep_caller_of hstep hc with ⟨φ', hold⟩ | hnew
    · exact .inl (.inr (.inr ⟨c, φ', hold⟩))
    · exact .inr ⟨c, hnew⟩
  rcases hm with hm | hm | ⟨c, φ, hc⟩
  · cases a with
    | receive =>
        simp only [broadcastStep] at hstep
        split at hstep
        · rename_i m' queue hagent hqueue
          cases hstep
          cases hm
          exact .inl (.inr (.inl (hqueue ▸ List.mem_cons_self)))
        · cases hstep
    | _ =>
        simp only [broadcastStep] at hstep
        split at hstep <;> try split at hstep
        all_goals cases hstep
        all_goals exact .inl (.inl hm)
  · cases broadcastStep_move hstep with
    | getattr _ hqueue _ _ => exact .inl (.inr (.inl (hqueue ▸ hm)))
    | passed _ _ hqueue _ _ => exact .inl (.inr (.inl (hqueue ▸ hm)))
    | refused _ _ hqueue _ _ => exact .inl (.inr (.inl (hqueue ▸ hm)))
    | @sent _ c m' hc hqueue _ _ =>
        rw [hqueue, List.mem_append, List.mem_singleton] at hm
        rcases hm with hm | rfl
        · exact .inl (.inr (.inl hm))
        · exact .inl (.inr (.inr ⟨c, .sending, hc⟩))
    | received hqueue _ _ _ => exact .inl (.inr (.inl (hqueue ▸ List.mem_cons_of_mem _ hm)))
    | failed _ hqueue _ => exact .inl (.inr (.inl (hqueue ▸ hm)))
    | delivered _ hqueue _ _ => exact .inl (.inr (.inl (hqueue ▸ hm)))
    | other hqueue _ _ => exact .inl (.inr (.inl (hqueue ▸ hm)))
  · exact hcaller hc

end LinuxChat
