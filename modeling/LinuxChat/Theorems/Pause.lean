import LinuxChat.Logic.BroadcastStep

/-!
# Pause excludes delivery, and the queue is lossless

The one token of the semaphore is free, with the agent, or with the pause
(`Control`); what has been delivered, what the agent holds and what is queued
is what was sent (`Lossless`). A delivery needs the token, so none happens
while the pause has it.
-/

namespace LinuxChat

open Trace

variable {ι μ : Type} {s s' : Broadcast ι μ} {o : BroadcastOut μ}
  {h : History (BroadcastAct ι μ) (BroadcastOut μ)}

/-- No `mq_receive` of the run fails. -/
def receives : Guard (Broadcast ι μ) (BroadcastAct ι μ) (BroadcastOut μ) := fun _ _ a =>
  (a matches .receiveFails) = false

instance (h : History (BroadcastAct ι μ) (BroadcastOut μ)) (s : Broadcast ι μ)
    (a : BroadcastAct ι μ) : Decidable (receives h s a) :=
  inferInstanceAs (Decidable (_ = false))

/-! ## The messages -/

/-- Delivered, held and queued messages are the sent ones, in order. -/
def Lossless (h : History (BroadcastAct ι μ) (BroadcastOut μ)) (s : Broadcast ι μ) : Prop :=
  delivered h ++ s.hand ++ s.queue = sent h

theorem sent_snoc (e : BroadcastAct ι μ × BroadcastOut μ) :
    sent (h ++ [e]) = sent h ++ (match e.2 with | .returned m true => [m] | _ => []) := by
  simp only [sent, List.filterMap_append]
  congr 1
  rcases e with ⟨a, _ | ⟨m, _ | _⟩ | m⟩ <;> rfl

theorem delivered_snoc (e : BroadcastAct ι μ × BroadcastOut μ) :
    delivered (h ++ [e]) =
      delivered h ++ (match e.2 with | .delivered m => m.toList | _ => []) := by
  simp only [delivered, List.filterMap_append]
  congr 1
  rcases e with ⟨a, _ | ⟨m, _ | _⟩ | _ | m⟩ <;> rfl

theorem lossless_step [DecidableEq ι] {a : BroadcastAct ι μ} (hinv : Lossless h s)
    (hg : receives h s a) (hstep : broadcastStep s a = some (s', o)) :
    Lossless (h ++ [(a, o)]) s' := by
  unfold Lossless at hinv ⊢
  rw [sent_snoc, delivered_snoc, ← hinv]
  cases broadcastStep_move hstep with
  | failed => cases hg
  | sent _ hqueue hhand _ => simp [hqueue, hhand]
  | received hqueue hnone hhand _ => simp [hqueue, hnone, hhand]
  | delivered hbuffer hqueue hhand _ => simp [hbuffer, hqueue, hhand]
  | getattr _ hqueue hhand _ => simp [hqueue, hhand]
  | passed _ _ hqueue hhand _ => simp [hqueue, hhand]
  | refused _ _ hqueue hhand _ => simp [hqueue, hhand]
  | other hqueue hhand _ => simp [hqueue, hhand]

/-! ## The token -/

/-- The pause has the token, read off the admin's position and the flag. -/
def Broadcast.holding (s : Broadcast ι μ) : Bool :=
  match s.admin with
  | .settingFlag => true
  | .clearingFlag => false
  | .idle | .pausing | .resuming => s.paused

/-- The pause is complete, read off the same. -/
def Broadcast.inForce (s : Broadcast ι μ) : Bool :=
  match s.admin with
  | .clearingFlag => false
  | .idle | .pausing | .settingFlag | .resuming => s.paused

/-- Who has the token, and what the flag says of it. -/
structure Control (h : History (BroadcastAct ι μ) (BroadcastOut μ)) (s : Broadcast ι μ) : Prop where
  token : s.tokens + s.agent.holdsToken.toNat + (pauseHolds h).toNat = 1
  holds : pauseHolds h = s.holding
  complete : pauseComplete h = s.inForce
  flagDown : s.admin = .pausing ∨ s.admin = .settingFlag → s.paused = false
  flagUp : s.admin = .resuming ∨ s.admin = .clearingFlag → s.paused = true

theorem pauseHolds_snoc (e : BroadcastAct ι μ × BroadcastOut μ) : pauseHolds (h ++ [e]) =
    if e.1 matches .pauseWait then true else if e.1 matches .resumePost then false
    else pauseHolds h := latch_snoc h e

theorem pauseComplete_snoc (e : BroadcastAct ι μ × BroadcastOut μ) : pauseComplete (h ++ [e]) =
    if e.1 matches .pauseFlag then true else if e.1 matches .resumePost then false
    else pauseComplete h := latch_snoc h e

/-- A step that leaves token, agent, admin and flag alone. -/
theorem Control.frame {a : BroadcastAct ι μ} (hinv : Control h s)
    (hholds : pauseHolds (h ++ [(a, o)]) = pauseHolds h)
    (hcomplete : pauseComplete (h ++ [(a, o)]) = pauseComplete h)
    (hagent : s'.tokens + s'.agent.holdsToken.toNat = s.tokens + s.agent.holdsToken.toNat)
    (hadmin : s'.admin = s.admin) (hpaused : s'.paused = s.paused) :
    Control (h ++ [(a, o)]) s' := by
  constructor
  · rw [hholds, hagent]; exact hinv.token
  · rw [hholds, hinv.holds, Broadcast.holding, Broadcast.holding, hadmin, hpaused]
  · rw [hcomplete, hinv.complete, Broadcast.inForce, Broadcast.inForce, hadmin, hpaused]
  · rw [hadmin, hpaused]; exact hinv.flagDown
  · rw [hadmin, hpaused]; exact hinv.flagUp

theorem control_step [DecidableEq ι] {a : BroadcastAct ι μ} (hinv : Control h s)
    (hstep : broadcastStep s a = some (s', o)) : Control (h ++ [(a, o)]) s' := by
  obtain ⟨htoken, hholds, hcomplete, hdown, hup⟩ := hinv
  have hinv : Control h s := ⟨htoken, hholds, hcomplete, hdown, hup⟩
  cases a with
  | getattr c m =>
      simp only [broadcastStep] at hstep
      split at hstep <;> cases hstep
      exact hinv.frame (pauseHolds_snoc _) (pauseComplete_snoc _) rfl rfl rfl
  | test c =>
      simp only [broadcastStep] at hstep
      split at hstep
      · split at hstep <;> cases hstep <;>
          exact hinv.frame (pauseHolds_snoc _) (pauseComplete_snoc _) rfl rfl rfl
      · cases hstep
  | send c =>
      simp only [broadcastStep] at hstep
      split at hstep
      · split at hstep <;> cases hstep
        exact hinv.frame (pauseHolds_snoc _) (pauseComplete_snoc _) rfl rfl rfl
      · cases hstep
  | receive =>
      simp only [broadcastStep] at hstep
      split at hstep
      · rename_i hagent _
        cases hstep
        exact hinv.frame (pauseHolds_snoc _) (pauseComplete_snoc _) (by rw [hagent]; rfl) rfl rfl
      · cases hstep
  | receiveFails =>
      simp only [broadcastStep] at hstep
      split at hstep <;> cases hstep
      rename_i hagent
      exact hinv.frame (pauseHolds_snoc _) (pauseComplete_snoc _) (by rw [hagent]; rfl) rfl rfl
  | wait =>
      simp only [broadcastStep] at hstep
      split at hstep <;> cases hstep
      rename_i hagent
      refine hinv.frame (pauseHolds_snoc _) (pauseComplete_snoc _) ?_ rfl rfl
      rw [hagent.1]
      exact Nat.sub_add_cancel hagent.2
  | deliver =>
      simp only [broadcastStep] at hstep
      split at hstep <;> cases hstep
      rename_i hagent
      exact hinv.frame (pauseHolds_snoc _) (pauseComplete_snoc _) (by rw [hagent]; rfl) rfl rfl
  | post =>
      simp only [broadcastStep] at hstep
      split at hstep <;> cases hstep
      rename_i hagent
      exact hinv.frame (pauseHolds_snoc _) (pauseComplete_snoc _) (by rw [hagent]; rfl) rfl rfl
  | pauseTest =>
      simp only [broadcastStep] at hstep
      split at hstep <;> cases hstep
      rename_i hadmin
      simp only [Broadcast.holding, Broadcast.inForce, hadmin] at hholds hcomplete
      constructor <;> cases hp : s.paused <;>
        simp [pauseHolds_snoc, pauseComplete_snoc, Broadcast.holding, Broadcast.inForce, hholds,
          hcomplete, hp] at htoken ⊢ <;> exact htoken
  | pauseWait =>
      simp only [broadcastStep] at hstep
      split at hstep <;> cases hstep
      rename_i hadmin
      -- The token is taken while the flag is still down.
      have hp : s.paused = false := hdown (.inl hadmin.1)
      simp only [Broadcast.holding, Broadcast.inForce, hadmin.1, hp] at hholds hcomplete
      rw [hholds] at htoken
      constructor
      · simp only [pauseHolds_snoc, if_true, Bool.toNat_true, Bool.toNat_false] at htoken ⊢
        omega
      · simp [pauseHolds_snoc, Broadcast.holding]
      · simp [pauseComplete_snoc, Broadcast.inForce, hcomplete, hp]
      · exact fun _ => hp
      · rintro (hh | hh) <;> cases hh
  | pauseFlag =>
      simp only [broadcastStep] at hstep
      split at hstep <;> cases hstep
      rename_i hadmin
      simp only [Broadcast.holding, Broadcast.inForce, hadmin] at hholds hcomplete
      constructor <;> simp [pauseHolds_snoc, pauseComplete_snoc, Broadcast.holding,
        Broadcast.inForce, hholds] at htoken ⊢
      exact htoken
  | resumeTest =>
      simp only [broadcastStep] at hstep
      split at hstep <;> cases hstep
      rename_i hadmin
      simp only [Broadcast.holding, Broadcast.inForce, hadmin] at hholds hcomplete
      constructor <;> cases hp : s.paused <;>
        simp [pauseHolds_snoc, pauseComplete_snoc, Broadcast.holding, Broadcast.inForce, hholds,
          hcomplete, hp] at htoken ⊢ <;> exact htoken
  | resumePost =>
      simp only [broadcastStep] at hstep
      split at hstep <;> cases hstep
      rename_i hadmin
      -- The token is given back while the flag is still up.
      have hp : s.paused = true := hup (.inl hadmin)
      simp only [Broadcast.holding, Broadcast.inForce, hadmin, hp] at hholds hcomplete
      rw [hholds] at htoken
      constructor
      · simp only [pauseHolds_snoc, if_true, Bool.false_eq_true, if_false, Bool.toNat_true,
          Bool.toNat_false] at htoken ⊢
        omega
      · simp [pauseHolds_snoc, Broadcast.holding]
      · simp [pauseComplete_snoc, Broadcast.inForce]
      · rintro (hh | hh) <;> cases hh
      · exact fun _ => hp
  | resumeFlag =>
      simp only [broadcastStep] at hstep
      split at hstep <;> cases hstep
      rename_i hadmin
      simp only [Broadcast.holding, Broadcast.inForce, hadmin] at hholds hcomplete
      constructor <;> simp [pauseHolds_snoc, pauseComplete_snoc, Broadcast.holding,
        Broadcast.inForce, hholds, hcomplete] at htoken ⊢
      exact htoken

theorem control_init : Control [] (Broadcast.init : Broadcast ι μ) := by
  constructor <;> simp [Broadcast.init, pauseHolds, pauseComplete, Broadcast.holding,
    Broadcast.inForce, AgentPhase.holdsToken]

theorem run_control [DecidableEq ι]
    {G : Guard (Broadcast ι μ) (BroadcastAct ι μ) (BroadcastOut μ)}
    (hrun : Run (broadcastMachine ι μ) G h s) : Control h s :=
  hrun.invariant control_init fun _ _ _ _ _ hinv _ hstep => control_step hinv hstep

theorem lossless_init : Lossless [] (Broadcast.init : Broadcast ι μ) := rfl

theorem run_lossless [DecidableEq ι] (hrun : Run (broadcastMachine ι μ) receives h s) :
    Lossless h s :=
  hrun.invariant (I := Lossless) lossless_init
    fun _ _ _ _ _ hinv hg hstep => lossless_step hinv hg hstep

/-- While the pause is complete, the agent is not in its loop. -/
theorem not_delivering (hinv : Control h s) (hpause : pauseComplete h = true) :
    s.agent ≠ .delivering := by
  intro hagent
  have hholds : pauseHolds h = true := by
    rw [hinv.holds]
    rw [hinv.complete] at hpause
    unfold Broadcast.inForce at hpause
    unfold Broadcast.holding
    split at hpause <;> simp_all
  have htoken := hinv.token
  rw [hagent, hholds] at htoken
  simp only [AgentPhase.holdsToken, Bool.toNat_true] at htoken
  omega

/-- Between the end of `pause_broadcast` and a delivery lies a `sem_post` of
`resume_broadcast`. -/
theorem resume_before_deliver [DecidableEq ι]
    {G : Guard (Broadcast ι μ) (BroadcastAct ι μ) (BroadcastOut μ)}
    {h₁ h₂ h₃ : History (BroadcastAct ι μ) (BroadcastOut μ)} {o' : BroadcastOut μ}
    (hrun : Run (broadcastMachine ι μ) G
      (h₁ ++ (.pauseFlag, o) :: (h₂ ++ (.deliver, o') :: h₃)) s) :
    ∃ e ∈ h₂, e.1 = .resumePost := by
  rw [← List.cons_append, ← List.append_assoc] at hrun
  obtain ⟨s₀, s₁, hrun₀, -, hstep⟩ := Run.of_append_cons hrun
  -- A delivery needs the agent in its loop, and a complete pause keeps it out.
  have hagent : s₀.agent = .delivering := by
    by_contra hno
    simp [broadcastMachine, broadcastStep, hno] at hstep
  have hopen : pauseComplete (h₁ ++ (.pauseFlag, o) :: h₂) = false := by
    cases hc : pauseComplete (h₁ ++ (.pauseFlag, o) :: h₂) with
    | false => rfl
    | true => exact absurd hagent (not_delivering (run_control hrun₀) hc)
  obtain ⟨e, he, hoff⟩ := exists_off_of_latch rfl hopen
  refine ⟨e, he, ?_⟩
  split at hoff
  · assumption
  · cases hoff

/-- **Pause excludes delivery and the queue is lossless.** In every run in which `mq_receive`
succeeds: what is delivered, held and queued is what was sent, in order; there is one token,
free, with the agent or with the pause; and no delivery happens between the end of
`pause_broadcast` and the `sem_post` of the next `resume_broadcast`. -/
theorem broadcast_safe [DecidableEq ι] (hrun : Run (broadcastMachine ι μ) receives h s) :
    delivered h ++ s.hand ++ s.queue = sent h ∧
      s.tokens + s.agent.holdsToken.toNat + (pauseHolds h).toNat = 1 ∧
      ∀ h₁ h₂ h₃ o o', h = h₁ ++ (.pauseFlag, o) :: (h₂ ++ (.deliver, o') :: h₃) →
        ∃ e ∈ h₂, e.1 = .resumePost :=
  ⟨run_lossless hrun, (run_control hrun).token, fun _ _ _ _ _ heq =>
    resume_before_deliver (heq ▸ hrun)⟩

/-- Two messages are sent; the first is delivered, the second waits for the pause to end. -/
theorem broadcast_safe_paused :
    ∃ h s, Run (broadcastMachine Nat Nat) receives h s ∧ sent h = [7, 8] ∧ delivered h = [7, 8] ∧
      s.tokens + s.agent.holdsToken.toNat + (pauseHolds h).toNat = 1 := by
  obtain ⟨h, s, hrun, hsent⟩ := Run.exists_of_replay
    (M := broadcastMachine Nat Nat) (G := receives)
    [.getattr 1 7, .getattr 2 8, .test 1, .test 2, .send 1, .receive, .pauseTest, .wait, .deliver,
      .post, .pauseWait, .send 2, .receive, .pauseFlag, .resumeTest, .resumePost, .wait, .deliver,
      .resumeFlag]
    (fun h _ => sent h == [7, 8] && delivered h == [7, 8]) (by decide +kernel)
  rw [Bool.and_eq_true, beq_iff_eq, beq_iff_eq] at hsent
  exact ⟨h, s, hrun, hsent.1, hsent.2, (broadcast_safe hrun).2.1⟩

end LinuxChat
