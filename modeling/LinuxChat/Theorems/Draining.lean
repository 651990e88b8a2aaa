import LinuxChat.Theorems.Pause

/-!
# What was accepted can still be delivered

No reachable state of the queue is stuck: from each of them the agent and the
admin's thread, by steps of their own, come to a state in which everything
that was sent has been delivered, whether a pause is in force, half done or
half taken back. And while a pause is in force, the queue and the agent's hand
are all the room there is.
-/

namespace LinuxChat

open Trace

variable {ι μ : Type} [DecidableEq ι] {s : Broadcast ι μ}
  {h : History (BroadcastAct ι μ) (BroadcastOut μ)}

/-- A step of the agent, where `mq_receive` succeeds, or of the admin's thread. -/
def BroadcastAct.own : BroadcastAct ι μ → Bool
  | .getattr .. | .test _ | .send _ | .receiveFails => false
  | .receive | .wait | .deliver | .post | .pauseTest | .pauseWait | .pauseFlag | .resumeTest
  | .resumePost | .resumeFlag => true

/-- Agent and admin go on alone. -/
def ownSteps : Guard (Broadcast ι μ) (BroadcastAct ι μ) (BroadcastOut μ) := fun _ _ a =>
  a.own = true

/-- Agent and admin can go on from `s`, after the history `h`, to a state that is `P`. -/
def CanReach (h : History (BroadcastAct ι μ) (BroadcastOut μ)) (s : Broadcast ι μ)
    (P : Broadcast ι μ → Prop) : Prop :=
  ∃ h' s', Continues (broadcastMachine ι μ) ownSteps h s h' s' ∧ P s'

variable {P Q : Broadcast ι μ → Prop}

omit [DecidableEq ι] in
theorem receives_of_own {a : BroadcastAct ι μ} (ha : a.own = true) : receives h s a := by
  cases a <;> first | rfl | cases ha

theorem Run.append_own {h' : History (BroadcastAct ι μ) (BroadcastOut μ)} {s' : Broadcast ι μ}
    (hrun : Run (broadcastMachine ι μ) receives h s)
    (hcont : Continues (broadcastMachine ι μ) ownSteps h s h' s') :
    Run (broadcastMachine ι μ) receives (h ++ h') s' := by
  induction hcont with
  | refl => rwa [List.append_nil]
  | step _ hg hs ih =>
      rw [← List.append_assoc]
      exact ih.step (receives_of_own hg) hs

theorem CanReach.here (hP : P s) : CanReach h s P := ⟨[], s, .refl, hP⟩

/-- One step, and on from there. -/
theorem CanReach.step {a : BroadcastAct ι μ} {s' : Broadcast ι μ} {o : BroadcastOut μ}
    (hs : broadcastStep s a = some (s', o)) (ha : a.own = true)
    (hnext : CanReach (h ++ [(a, o)]) s' P) : CanReach h s P := by
  obtain ⟨h', t, hcont, hP⟩ := hnext
  have hfirst : Continues (broadcastMachine ι μ) ownSteps h s [(a, o)] s' := .single ha hs
  exact ⟨_, t, hfirst.trans hcont, hP⟩

/-- One stage after the other; each starts from a run. -/
theorem CanReach.trans (hrun : Run (broadcastMachine ι μ) receives h s) (hP : CanReach h s P)
    (hnext : ∀ h s, Run (broadcastMachine ι μ) receives h s → P s → CanReach h s Q) :
    CanReach h s Q := by
  obtain ⟨h₁, s₁, hcont, hs₁⟩ := hP
  obtain ⟨h₂, s₂, hcont', hs₂⟩ := hnext _ _ (Run.append_own hrun hcont) hs₁
  exact ⟨_, s₂, hcont.trans hcont', hs₂⟩

/-! ## Stages -/

/-- Behind its loop, the agent posts. -/
theorem canReach_posted (hagent : s.agent = .posting)
    (hP : P { s with tokens := s.tokens + 1, agent := .receiving }) : CanReach h s P :=
  .step (a := .post) (if_pos hagent) rfl (.here hP)

/-- In its loop, the agent delivers and posts. -/
theorem canReach_delivered (hagent : s.agent = .delivering)
    (hP : P { s with tokens := s.tokens + 1, agent := .receiving }) : CanReach h s P :=
  .step (a := .deliver) (if_pos hagent) rfl (canReach_posted rfl hP)

/-- The agent can give its token back. -/
theorem canReach_tokenBack (s : Broadcast ι μ) : CanReach h s fun s' =>
    s'.agent.holdsToken = false ∧ s'.queue = s.queue := by
  cases hagent : s.agent with
  | receiving => exact .here ⟨by rw [hagent]; rfl, rfl⟩
  | waiting => exact .here ⟨by rw [hagent]; rfl, rfl⟩
  | delivering => exact canReach_delivered hagent ⟨rfl, rfl⟩
  | posting => exact canReach_posted hagent ⟨rfl, rfl⟩

omit [DecidableEq ι] in
/-- The token is free when neither the agent nor a pause has it. -/
theorem token_free (hctl : Control h s) (hagent : s.agent.holdsToken = false)
    (hholds : s.holding = false) : 0 < s.tokens := by
  have htoken := hctl.token
  rw [hagent, hctl.holds, hholds] at htoken
  simp only [Bool.toNat_false] at htoken
  omega

/-- The admin is between two commands and no pause is in force. -/
def Broadcast.Open (s : Broadcast ι μ) : Prop := s.admin = .idle ∧ s.paused = false

/-- The admin can finish what it is at, and end a pause. -/
theorem canReach_open (hctl : Control h s) (hagent : s.agent.holdsToken = false) :
    CanReach h s fun s' =>
      s'.Open ∧ s'.agent.holdsToken = false ∧ s'.queue = s.queue := by
  -- From the end of a command to its beginning.
  have hclearing : ∀ (h : History (BroadcastAct ι μ) (BroadcastOut μ)) (t : Broadcast ι μ),
      t.admin = .clearingFlag → t.agent = s.agent → t.queue = s.queue → CanReach h t fun s' =>
        s'.Open ∧ s'.agent.holdsToken = false ∧ s'.queue = s.queue := by
    intro h t hadmin hta htq
    exact .step (a := .resumeFlag) (if_pos hadmin) rfl
      (.here ⟨⟨rfl, rfl⟩, by rw [hta]; exact hagent, htq⟩)
  have hresuming : ∀ (h : History (BroadcastAct ι μ) (BroadcastOut μ)) (t : Broadcast ι μ),
      t.admin = .resuming → t.agent = s.agent → t.queue = s.queue → CanReach h t fun s' =>
        s'.Open ∧ s'.agent.holdsToken = false ∧ s'.queue = s.queue := by
    intro h t hadmin hta htq
    exact .step (a := .resumePost) (if_pos hadmin) rfl (hclearing _ _ rfl hta htq)
  have hpaused : ∀ (h : History (BroadcastAct ι μ) (BroadcastOut μ)) (t : Broadcast ι μ),
      t.admin = .idle → t.paused = true → t.agent = s.agent → t.queue = s.queue →
        CanReach h t fun s' =>
          s'.Open ∧ s'.agent.holdsToken = false ∧ s'.queue = s.queue := by
    intro h t hadmin hp hta htq
    exact .step (a := .resumeTest) (if_pos hadmin) rfl (hresuming _ _ (if_pos hp) hta htq)
  have hsetting : ∀ (h : History (BroadcastAct ι μ) (BroadcastOut μ)) (t : Broadcast ι μ),
      t.admin = .settingFlag → t.agent = s.agent → t.queue = s.queue → CanReach h t fun s' =>
        s'.Open ∧ s'.agent.holdsToken = false ∧ s'.queue = s.queue := by
    intro h t hadmin hta htq
    exact .step (a := .pauseFlag) (if_pos hadmin) rfl (hpaused _ _ rfl rfl hta htq)
  cases hadmin : s.admin with
  | idle =>
      cases hp : s.paused with
      | false => exact .here ⟨⟨hadmin, hp⟩, hagent, rfl⟩
      | true => exact hpaused _ _ hadmin hp rfl rfl
  | pausing =>
      -- `sem_wait` finds the token, since the agent has given it back.
      have hdown := hctl.flagDown (.inl hadmin)
      have htoken := token_free hctl hagent (by simp [Broadcast.holding, hadmin, hdown])
      exact .step (a := .pauseWait) (if_pos ⟨hadmin, htoken⟩) rfl (hsetting _ _ rfl rfl rfl)
  | settingFlag => exact hsetting _ _ hadmin rfl rfl
  | resuming => exact hresuming _ _ hadmin rfl rfl
  | clearingFlag => exact hclearing _ _ hadmin rfl rfl

/-- The agent is in `mq_receive`, and nothing keeps it from delivering. -/
def Broadcast.Ready (s : Broadcast ι μ) : Prop := s.Open ∧ s.agent = .receiving

/-- What the agent has received it can deliver. -/
theorem canReach_round (hctl : Control h s) (hopen : s.Open) (hagent : s.agent = .waiting) :
    CanReach h s fun s' => s'.Ready ∧ s'.queue = s.queue := by
  have htoken := token_free hctl (by rw [hagent]; rfl)
    (by simp [Broadcast.holding, hopen.1, hopen.2])
  exact .step (a := .wait) (if_pos ⟨hagent, htoken⟩) rfl
    (canReach_delivered rfl ⟨⟨hopen, rfl⟩, rfl⟩)

theorem canReach_ready (hctl : Control h s) (hopen : s.Open)
    (hagent : s.agent.holdsToken = false) :
    CanReach h s fun s' => s'.Ready ∧ s'.queue = s.queue := by
  cases hphase : s.agent with
  | receiving => exact .here ⟨⟨hopen, hphase⟩, rfl⟩
  | waiting => exact canReach_round hctl hopen hphase
  | delivering => rw [hphase] at hagent; cases hagent
  | posting => rw [hphase] at hagent; cases hagent

/-- One message after the other, the queue can be emptied. -/
theorem canReach_empty (hrun : Run (broadcastMachine ι μ) receives h s) (hready : s.Ready) :
    CanReach h s fun s' => s'.Ready ∧ s'.queue = [] := by
  generalize hq : s.queue = queue
  induction queue generalizing h s with
  | nil => exact .here ⟨hready, hq⟩
  | cons m queue ih =>
      have hreceive : broadcastStep s .receive =
          some ({ s with queue, buffer := some m, agent := .waiting }, .quiet) := by
        simp [broadcastStep, hready.2, hq]
      have hrun' := hrun.step (M := broadcastMachine ι μ) (a := .receive) rfl hreceive
      refine .step hreceive rfl ?_
      refine .trans hrun' (canReach_round (run_control hrun') hready.1 rfl) ?_
      intro h' s' hrun'' hs'
      exact ih hrun'' hs'.1 hs'.2

/-! ## The result -/

/-- Agent and admin send nothing. -/
theorem sent_own {h' : History (BroadcastAct ι μ) (BroadcastOut μ)} {s' : Broadcast ι μ}
    (hcont : Continues (broadcastMachine ι μ) ownSteps h s h' s') : sent h' = [] := by
  refine hcont.invariant (I := fun h' _ => sent h' = []) rfl ?_
  intro h' s a s' o hnil hg hs
  rw [sent_snoc, hnil]
  cases broadcastStep_move hs with
  | sent => cases hg
  | _ => rfl

/-- **What was accepted can still be delivered.** From every reachable state, by steps of the
agent and of the admin's thread alone, all that was sent comes to be delivered, in order, and
the queue is empty and open again. -/
theorem drains (hrun : Run (broadcastMachine ι μ) receives h s) :
    ∃ h' s', Continues (broadcastMachine ι μ) ownSteps h s h' s' ∧
      delivered (h ++ h') = sent h ∧ s'.queue = [] ∧ s'.hand = [] ∧ s'.Open := by
  have hback := canReach_tokenBack (h := h) s
  have hopen : CanReach h s fun s' => s'.Open ∧ s'.agent.holdsToken = false :=
    .trans hrun hback fun h₁ s₁ hrun₁ hs₁ =>
      .trans hrun₁ (canReach_open (run_control hrun₁) hs₁.1) fun _ _ _ hs₂ =>
        .here ⟨hs₂.1, hs₂.2.1⟩
  have hready : CanReach h s Broadcast.Ready :=
    .trans hrun hopen fun h₁ s₁ hrun₁ hs₁ =>
      .trans hrun₁ (canReach_ready (run_control hrun₁) hs₁.1 hs₁.2) fun _ _ _ hs₂ => .here hs₂.1
  obtain ⟨h', s', hcont, hs', hqueue⟩ : CanReach h s fun s' => s'.Ready ∧ s'.queue = [] :=
    .trans hrun hready fun _ _ hrun₁ hs₁ => canReach_empty hrun₁ hs₁
  have hhand : s'.hand = [] := by simp [Broadcast.hand, hs'.2]
  refine ⟨h', s', hcont, ?_, hqueue, hhand, hs'.1⟩
  have hall := run_lossless (Run.append_own hrun hcont)
  unfold Lossless at hall
  rw [hhand, hqueue, List.append_nil, List.append_nil] at hall
  rw [hall, sent, List.filterMap_append]
  show sent h ++ sent h' = sent h
  rw [sent_own hcont, List.append_nil]

/-- Five messages are accepted in a run that has a pause in force and the agent in `sem_wait`. -/
theorem drains_paused : ∃ (h h' : History (BroadcastAct Nat Nat) (BroadcastOut Nat))
    (s s' : Broadcast Nat Nat), Continues (broadcastMachine Nat Nat) ownSteps h s h' s' ∧
      s.paused = true ∧ sent h = [5, 6] ∧ delivered (h ++ h') = [5, 6] := by
  obtain ⟨h, s, hrun, hend⟩ := Run.exists_of_replay
    (M := broadcastMachine Nat Nat) (G := receives)
    [.pauseTest, .pauseWait, .pauseFlag, .getattr 1 5, .test 1, .send 1, .receive, .getattr 1 6,
      .test 1, .send 1]
    (fun h s => sent h == [5, 6] && s.paused) (by decide +kernel)
  rw [Bool.and_eq_true, beq_iff_eq] at hend
  obtain ⟨h', s', hcont, hall, -⟩ := drains hrun
  exact ⟨h, h', s, s', hcont, hend.2, hend.1, hall.trans hend.1⟩

/-! ## What fits while a pause is in force -/

/-- No `/resume` gives the token back. -/
def staysPaused : Guard (Broadcast ι μ) (BroadcastAct ι μ) (BroadcastOut μ) := fun _ _ a =>
  (a matches .resumePost) = false

instance (h : History (BroadcastAct ι μ) (BroadcastOut μ)) (s : Broadcast ι μ)
    (a : BroadcastAct ι μ) : Decidable (staysPaused h s a) :=
  inferInstanceAs (Decidable (_ = false))

theorem queue_length_step {a : BroadcastAct ι μ} {s' : Broadcast ι μ} {o : BroadcastOut μ}
    (hle : s.queue.length ≤ mqMaxmsg) (hs : broadcastStep s a = some (s', o)) :
    s'.queue.length ≤ mqMaxmsg := by
  cases a with
  | send c =>
      simp only [broadcastStep] at hs
      split at hs
      · split at hs <;> cases hs
        rename_i hroom
        simp only [List.length_append, List.length_singleton]
        omega
      · cases hs
  | receive =>
      simp only [broadcastStep] at hs
      split at hs
      · rename_i m queue hagent hqueue
        cases hs
        rw [hqueue, List.length_cons] at hle
        exact Nat.le_of_succ_le hle
      · cases hs
  | _ =>
      simp only [broadcastStep] at hs
      split at hs <;> try split at hs
      all_goals cases hs
      all_goals exact hle

/-- The queue never holds more than `attr.mq_maxmsg` messages. -/
theorem queue_length_le {G : Guard (Broadcast ι μ) (BroadcastAct ι μ) (BroadcastOut μ)}
    (hrun : Run (broadcastMachine ι μ) G h s) : s.queue.length ≤ mqMaxmsg :=
  hrun.invariant (I := fun _ s => s.queue.length ≤ mqMaxmsg) (Nat.zero_le _)
    fun _ _ _ _ _ hle _ hs => queue_length_step hle hs

omit [DecidableEq ι] in
theorem hand_length_le (s : Broadcast ι μ) : s.hand.length ≤ 1 := by
  unfold Broadcast.hand
  cases s.buffer <;> split <;> simp

/-- While a pause is in force, the agent delivers nothing, and each message that is accepted is one
more in the queue and the agent's hand. -/
theorem paused_step {a : BroadcastAct ι μ} {s' : Broadcast ι μ} {o : BroadcastOut μ}
    (hctl : Control h s) (hpause : pauseComplete h = true) (hs : broadcastStep s a = some (s', o)) :
    delivered [(a, o)] = [] ∧
      s.hand.length + s.queue.length + (sent [(a, o)]).length ≤
        s'.hand.length + s'.queue.length := by
  have hsame : s'.queue = s.queue → s'.hand = s.hand →
      s.hand.length + s.queue.length + 0 ≤ s'.hand.length + s'.queue.length := by
    intro hqueue hhand
    rw [hqueue, hhand]
    exact Nat.le_refl _
  cases broadcastStep_move hs with
  | getattr _ hqueue hhand _ => exact ⟨rfl, hsame hqueue hhand⟩
  | passed _ _ hqueue hhand _ => exact ⟨rfl, hsame hqueue hhand⟩
  | refused _ _ hqueue hhand _ => exact ⟨rfl, hsame hqueue hhand⟩
  | other hqueue hhand _ => exact ⟨rfl, hsame hqueue hhand⟩
  | sent _ hqueue hhand _ =>
      refine ⟨rfl, ?_⟩
      rw [hqueue, hhand, List.length_append, Nat.add_assoc]
      exact Nat.le_refl _
  | received hqueue hhand hhand' _ =>
      refine ⟨rfl, ?_⟩
      rw [hqueue, hhand, hhand', List.length_cons, List.length_nil, List.length_singleton]
      show 0 + _ + 0 ≤ _
      omega
  | failed hhand hqueue _ =>
      -- What the buffer holds from before is in the agent's hand again.
      refine ⟨rfl, ?_⟩
      rw [hqueue, hhand, List.length_nil]
      show 0 + _ + 0 ≤ _
      omega
  | delivered =>
      -- The loop is closed to the agent.
      have hagent : s.agent = .delivering := by
        by_contra hno
        simp [broadcastStep, hno] at hs
      exact absurd hagent (not_delivering hctl hpause)

/-- **A pause holds back at most eleven messages.** While a completed pause stays in force, nothing
is delivered, and what is accepted adds to the queue and to the agent's hand, which together have
room for `attr.mq_maxmsg` messages and one. -/
theorem paused_capacity {G : Guard (Broadcast ι μ) (BroadcastAct ι μ) (BroadcastOut μ)}
    {h' : History (BroadcastAct ι μ) (BroadcastOut μ)} {s' : Broadcast ι μ}
    (hrun : Run (broadcastMachine ι μ) G h s) (hpause : pauseComplete h = true)
    (hcont : Continues (broadcastMachine ι μ) staysPaused h s h' s') :
    delivered h' = [] ∧
      s.hand.length + s.queue.length + (sent h').length ≤ s'.hand.length + s'.queue.length ∧
      s'.hand.length + s'.queue.length ≤ mqMaxmsg + 1 := by
  have hall : Control (h ++ h') s' ∧ pauseComplete (h ++ h') = true ∧
      s'.queue.length ≤ mqMaxmsg ∧ delivered h' = [] ∧
      s.hand.length + s.queue.length + (sent h').length ≤ s'.hand.length + s'.queue.length := by
    refine hcont.invariant (I := fun h' s' => Control (h ++ h') s' ∧
      pauseComplete (h ++ h') = true ∧ s'.queue.length ≤ mqMaxmsg ∧ delivered h' = [] ∧
      s.hand.length + s.queue.length + (sent h').length ≤ s'.hand.length + s'.queue.length)
      ?_ ?_
    · rw [List.append_nil]
      exact ⟨run_control hrun, hpause, queue_length_le hrun, rfl, Nat.le_refl _⟩
    intro h₁ s₁ a s₂ o ⟨hctl, hpause₁, hle, hnone, hcount⟩ hg hs
    obtain ⟨hnone', hcount'⟩ := paused_step hctl hpause₁ hs
    rw [← List.append_assoc]
    refine ⟨control_step hctl hs, ?_, queue_length_step hle hs, ?_, ?_⟩
    · rw [pauseComplete_snoc, hpause₁]
      cases a with
      | resumePost => cases hg
      | _ => rfl
    · rw [delivered, List.filterMap_append]
      show delivered h₁ ++ delivered [(a, o)] = []
      rw [hnone, hnone', List.append_nil]
    · rw [sent, List.filterMap_append]
      show _ + (sent h₁ ++ sent [(a, o)]).length ≤ _
      rw [List.length_append]
      omega
  obtain ⟨-, -, hle, hnone, hcount⟩ := hall
  have hhand := hand_length_le s'
  exact ⟨hnone, hcount, by omega⟩

/-- Two messages are accepted behind a pause; one of them waits in the agent's hand. -/
theorem paused_capacity_two : ∃ (h h' : History (BroadcastAct Nat Nat) (BroadcastOut Nat))
    (s s' : Broadcast Nat Nat), Continues (broadcastMachine Nat Nat) staysPaused h s h' s' ∧
      sent h' = [3, 4] ∧ delivered h' = [] ∧ s'.hand.length + s'.queue.length ≤ mqMaxmsg + 1 := by
  obtain ⟨h, s, h', s', hrun, hcont, hend⟩ := Continues.exists_of_replay
    (M := broadcastMachine Nat Nat) (G := anyStep) (K := staysPaused)
    [.pauseTest, .pauseWait, .pauseFlag]
    [.getattr 1 3, .test 1, .send 1, .receive, .getattr 2 4, .test 2, .send 2]
    (fun h _ h' _ => pauseComplete h && sent h' == [3, 4]) (by decide +kernel)
  rw [Bool.and_eq_true, beq_iff_eq] at hend
  have hroom := paused_capacity hrun hend.1 hcont
  exact ⟨h, h', s, s', hcont, hend.2, hroom.1, hroom.2.2⟩

end LinuxChat
