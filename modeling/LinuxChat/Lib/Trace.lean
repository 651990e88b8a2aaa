import Mathlib.Data.List.Induction

/-!
# Labelled machines and their runs

A machine steps on an action, is silent about it (`none`: the action is not
enabled) or moves on with an output. A run records what happened, so that an
invariant may speak about the history as well as about the state.

Runs carry a guard on their steps: `Run M G` is the runs of `M` all of whose
steps were taken in a state, and after a history, that `G` allows.
-/

namespace Trace

/-- A machine with actions `α` and outputs `ω`. -/
structure Machine (σ α ω : Type*) where
  init : σ
  step : σ → α → Option (σ × ω)

/-- What happened, oldest first. -/
abbrev History (α ω : Type*) := List (α × ω)

/-- A condition on the steps of a run. -/
abbrev Guard (σ α ω : Type*) := History α ω → σ → α → Prop

variable {σ α ω : Type*}

/-- The guard that lets every step through. -/
def anyStep : Guard σ α ω := fun _ _ _ => True

/-- The runs of `M` whose steps all meet `G`. -/
inductive Run (M : Machine σ α ω) (G : Guard σ α ω) : History α ω → σ → Prop
  | init : Run M G [] M.init
  | step {h s a s' o} : Run M G h s → G h s a → M.step s a = some (s', o) →
      Run M G (h ++ [(a, o)]) s'

variable {M : Machine σ α ω} {G : Guard σ α ω} {h : History α ω} {s : σ}

/-- What holds initially and is kept by every allowed step holds along every run. -/
theorem Run.invariant {I : History α ω → σ → Prop} (hinit : I [] M.init)
    (hstep : ∀ h s a s' o, I h s → G h s a → M.step s a = some (s', o) → I (h ++ [(a, o)]) s')
    (hrun : Run M G h s) : I h s := by
  induction hrun with
  | init => exact hinit
  | step _ hg hs ih => exact hstep _ _ _ _ _ ih hg hs

/-- A weaker condition allows at least the same runs. -/
theorem Run.mono {G' : Guard σ α ω} (hG : ∀ h s a, G h s a → G' h s a) (hrun : Run M G h s) :
    Run M G' h s := by
  induction hrun with
  | init => exact .init
  | step _ hg hs ih => exact .step ih (hG _ _ _ hg) hs

/-- Conditions that agree wherever an invariant of theirs holds allow the same runs. -/
theorem Run.iff_of_guards {G' : Guard σ α ω} {I : History α ω → σ → Prop} (hinit : I [] M.init)
    (hstep : ∀ h s a s' o, I h s → G h s a → M.step s a = some (s', o) → I (h ++ [(a, o)]) s')
    (hiff : ∀ h s a s' o, I h s → M.step s a = some (s', o) → (G h s a ↔ G' h s a)) :
    Run M G h s ↔ Run M G' h s := by
  constructor
  · intro hrun
    have hboth : Run M G' h s ∧ I h s := by
      induction hrun with
      | init => exact ⟨.init, hinit⟩
      | step _ hg hs ih =>
          exact ⟨.step ih.1 ((hiff _ _ _ _ _ ih.2 hs).mp hg) hs, hstep _ _ _ _ _ ih.2 hg hs⟩
    exact hboth.1
  · intro hrun
    have hboth : Run M G h s ∧ I h s := by
      induction hrun with
      | init => exact ⟨.init, hinit⟩
      | step _ hg' hs ih =>
          have hg := (hiff _ _ _ _ _ ih.2 hs).mpr hg'
          exact ⟨.step ih.1 hg hs, hstep _ _ _ _ _ ih.2 hg hs⟩
    exact hboth.1

/-! ## Simulation -/

/-- The runs of a transition relation whose transitions are labelled with outputs. -/
inductive Steps {τ : Type*} (T : τ → ω → τ → Prop) (t₀ : τ) : List ω → τ → Prop
  | init : Steps T t₀ [] t₀
  | step {os t o t'} : Steps T t₀ os t → T t o t' → Steps T t₀ (os ++ [o]) t'

/-- Where every step has a transition with its output that leads to related states, every
run has a run with its outputs. -/
theorem Run.simulation {τ : Type*} {T : τ → ω → τ → Prop} {t₀ : τ} {R : σ → τ → Prop}
    (hinit : R M.init t₀)
    (hstep : ∀ h s a s' o t, R s t → G h s a → M.step s a = some (s', o) →
      ∃ t', T t o t' ∧ R s' t')
    (hrun : Run M G h s) : ∃ t, Steps T t₀ (h.map Prod.snd) t ∧ R s t := by
  induction hrun with
  | init => exact ⟨t₀, .init, hinit⟩
  | step _ hg hs ih =>
      obtain ⟨t, hsteps, hrel⟩ := ih
      obtain ⟨t', hstep', hrel'⟩ := hstep _ _ _ _ _ t hrel hg hs
      exact ⟨t', by simpa using hsteps.step hstep', hrel'⟩

/-! ## Histories -/

/-- A run ends with its last step. -/
theorem Run.of_snoc {a : α} {o : ω} (hrun : Run M G (h ++ [(a, o)]) s) :
    ∃ s₀, Run M G h s₀ ∧ G h s₀ a ∧ M.step s₀ a = some (s, o) := by
  generalize hl : h ++ [(a, o)] = l at hrun
  cases hrun with
  | init => exact absurd hl (by simp)
  | step hrun hg hs =>
      obtain ⟨rfl, hlast⟩ := List.append_inj' hl rfl
      simp only [List.cons.injEq, Prod.mk.injEq, and_true] at hlast
      obtain ⟨rfl, rfl⟩ := hlast
      exact ⟨_, hrun, hg, hs⟩

/-- Every beginning of a history has a run. -/
theorem Run.of_append {h' : History α ω} (hrun : Run M G (h ++ h') s) : ∃ s₀, Run M G h s₀ := by
  induction h' using List.reverseRecOn generalizing s with
  | nil => exact ⟨s, by simpa using hrun⟩
  | append_singleton h' e ih =>
      rw [← List.append_assoc] at hrun
      obtain ⟨s₀, hrun₀, -⟩ := Run.of_snoc hrun
      exact ih hrun₀

/-- Every step of a history was taken in a run. -/
theorem Run.of_append_cons {a : α} {o : ω} {h' : History α ω}
    (hrun : Run M G (h ++ (a, o) :: h') s) :
    ∃ s₀ s₁, Run M G h s₀ ∧ G h s₀ a ∧ M.step s₀ a = some (s₁, o) := by
  rw [← List.singleton_append, ← List.append_assoc] at hrun
  obtain ⟨s₁, hrun₁⟩ := Run.of_append hrun
  obtain ⟨s₀, hrun₀, hg, hs⟩ := Run.of_snoc hrun₁
  exact ⟨s₀, s₁, hrun₀, hg, hs⟩

/-! ## Continuations -/

/-- What a run that has come to `s₀` with the history `h₀` can go on with. -/
inductive Continues (M : Machine σ α ω) (G : Guard σ α ω) (h₀ : History α ω) (s₀ : σ) :
    History α ω → σ → Prop
  | refl : Continues M G h₀ s₀ [] s₀
  | step {h s a s' o} : Continues M G h₀ s₀ h s → G (h₀ ++ h) s a → M.step s a = some (s', o) →
      Continues M G h₀ s₀ (h ++ [(a, o)]) s'

/-- What holds where a run goes on from, and is kept by every allowed step, holds as it goes on. -/
theorem Continues.invariant {I : History α ω → σ → Prop} {h₀ : History α ω} {s₀ : σ}
    (hinit : I [] s₀)
    (hstep : ∀ h s a s' o, I h s → G (h₀ ++ h) s a → M.step s a = some (s', o) →
      I (h ++ [(a, o)]) s')
    (hcont : Continues M G h₀ s₀ h s) : I h s := by
  induction hcont with
  | refl => exact hinit
  | step _ hg hs ih => exact hstep _ _ _ _ _ ih hg hs

theorem Run.append {h' : History α ω} {s' : σ} (hrun : Run M G h s)
    (hcont : Continues M G h s h' s') : Run M G (h ++ h') s' := by
  induction hcont with
  | refl => rwa [List.append_nil]
  | step _ hg hs ih =>
      rw [← List.append_assoc]
      exact ih.step hg hs

theorem Continues.trans {h₀ h' : History α ω} {s₀ s' : σ} (hcont : Continues M G h₀ s₀ h s)
    (hcont' : Continues M G (h₀ ++ h) s h' s') : Continues M G h₀ s₀ (h ++ h') s' := by
  induction hcont' with
  | refl => rwa [List.append_nil]
  | step _ hg hs ih =>
      rw [← List.append_assoc]
      rw [List.append_assoc] at hg
      exact ih.step hg hs

/-- A run is a run up to any point and what it goes on with from there. -/
theorem Run.split {h' : History α ω} {s' : σ} (hrun : Run M G (h ++ h') s') :
    ∃ s, Run M G h s ∧ Continues M G h s h' s' := by
  induction h' using List.reverseRecOn generalizing s' with
  | nil =>
      rw [List.append_nil] at hrun
      exact ⟨s', hrun, .refl⟩
  | append_singleton h' e ih =>
      rw [← List.append_assoc] at hrun
      obtain ⟨t, hrun', hg, hs⟩ := Run.of_snoc hrun
      obtain ⟨s, hrun'', hcont⟩ := ih hrun'
      exact ⟨s, hrun'', hcont.step hg hs⟩

/-- A continuation by one step. -/
theorem Continues.single {h₀ : History α ω} {s₀ : σ} {a : α} {o : ω} (hg : G h₀ s₀ a)
    (hs : M.step s₀ a = some (s, o)) : Continues M G h₀ s₀ [(a, o)] s := by
  have hrefl : Continues M G h₀ s₀ [] s₀ := .refl
  exact hrefl.step (by rwa [List.append_nil]) hs

/-- A machine whose steps another one can follow, by any number of its own, has each of its runs
followed by a run. -/
theorem Run.refines {τ β υ : Type*} {N : Machine τ β υ} {K : Guard τ β υ}
    {R : History α ω → σ → History β υ → τ → Prop} (hinit : R [] M.init [] N.init)
    (hstep : ∀ h s a s' o k t, R h s k t → G h s a → M.step s a = some (s', o) →
      ∃ k' t', Continues N K k t k' t' ∧ R (h ++ [(a, o)]) s' (k ++ k') t')
    (hrun : Run M G h s) : ∃ k t, Run N K k t ∧ R h s k t := by
  induction hrun with
  | init => exact ⟨[], N.init, .init, hinit⟩
  | step _ hg hs ih =>
      obtain ⟨k, t, hrun, hrel⟩ := ih
      obtain ⟨k', t', hcont, hrel'⟩ := hstep _ _ _ _ _ k t hrel hg hs
      exact ⟨k ++ k', t', hrun.append hcont, hrel'⟩

/-! ## Latches -/

/-- The latest of the `on` and `off` actions was an `on`. -/
def latch (on off : α → Bool) (h : History α ω) : Bool :=
  h.foldl (fun b e => if on e.1 then true else if off e.1 then false else b) false

variable {on off : α → Bool}

@[simp] theorem latch_nil : latch on off ([] : History α ω) = false := rfl

@[simp] theorem latch_snoc (h : History α ω) (e : α × ω) : latch on off (h ++ [e]) =
    if on e.1 then true else if off e.1 then false else latch on off h := by
  simp [latch, List.foldl_append]

/-- Between an `on` and a place where the latch is open lies an `off`. -/
theorem exists_off_of_latch {e : α × ω} {h' : History α ω} (hon : on e.1 = true)
    (hopen : latch on off (h ++ e :: h') = false) : ∃ e' ∈ h', off e'.1 = true := by
  by_contra hno
  -- Without an `off`, the latch stays closed from `e` on.
  have hclosed : latch on off (h ++ e :: h') = true := by
    clear hopen
    induction h' using List.reverseRecOn with
    | nil => simp [hon]
    | append_singleton h' e' ih =>
        have hoff : off e'.1 = false := by
          by_contra hoff
          exact hno ⟨e', by simp, by simpa using hoff⟩
        rw [← List.cons_append, ← List.append_assoc, latch_snoc,
          ih fun ⟨e'', he'', hoff''⟩ => hno ⟨e'', List.mem_append_left _ he'', hoff''⟩]
        simp [hoff]
  rw [hclosed] at hopen
  cases hopen

/-! ## Without a break -/

/-- The state after the actions, one directly after the other. -/
def Machine.after (M : Machine σ α ω) : σ → List α → Option σ
  | s, [] => some s
  | s, a :: rest => (M.step s a).bind fun r => M.after r.1 rest

theorem Machine.after_cons {a : α} {s' : σ} {o : ω} (h : M.step s a = some (s', o))
    (rest : List α) : M.after s (a :: rest) = M.after s' rest := by
  simp [Machine.after, h]

/-- Actions that can be taken one directly after the other are a continuation. -/
theorem Continues.of_after (h₀ : History α ω) {acts : List α} {t : σ}
    (hafter : M.after s acts = some t) :
    ∃ k, k.map Prod.fst = acts ∧ Continues M anyStep h₀ s k t := by
  induction acts generalizing h₀ s with
  | nil =>
      simp only [Machine.after, Option.some.injEq] at hafter
      subst hafter
      exact ⟨[], rfl, .refl⟩
  | cons a rest ih =>
      simp only [Machine.after, Option.bind_eq_some_iff] at hafter
      obtain ⟨⟨s', o⟩, hs, hrest⟩ := hafter
      have hfirst : Continues M anyStep h₀ s [(a, o)] s' := .single trivial hs
      obtain ⟨k, rfl, hcont⟩ := ih _ hrest
      exact ⟨[(a, o)] ++ k, rfl, hfirst.trans hcont⟩

/-! ## Replay -/

/-- Take the actions one after the other; `none` if one is not enabled or not allowed. -/
def Machine.replay (M : Machine σ α ω) (G : Guard σ α ω) [∀ h s a, Decidable (G h s a)] :
    History α ω → σ → List α → Option (History α ω × σ)
  | h, s, [] => some (h, s)
  | h, s, a :: rest =>
      if G h s a then
        match M.step s a with
        | none => none
        | some (s', o) => M.replay G (h ++ [(a, o)]) s' rest
      else none

instance (h : History α ω) (s : σ) (a : α) : Decidable (anyStep h s a) :=
  inferInstanceAs (Decidable True)

/-- A replay extends a run. -/
theorem Run.append_replay [∀ h s a, Decidable (G h s a)] {t : σ} {h' : History α ω}
    {acts : List α} (hrun : Run M G h s) (hplay : M.replay G h s acts = some (h', t)) :
    Run M G h' t := by
  induction acts generalizing h s with
  | nil =>
      simp only [Machine.replay, Option.some.injEq, Prod.mk.injEq] at hplay
      obtain ⟨rfl, rfl⟩ := hplay
      exact hrun
  | cons a rest ih =>
      simp only [Machine.replay] at hplay
      split at hplay
      · rename_i hg
        cases hs : M.step s a with
        | none => simp [hs] at hplay
        | some r =>
            simp only [hs] at hplay
            exact ih (.step hrun hg hs) hplay
      · cases hplay

/-- A replay from the initial state is a run. -/
theorem Run.of_replay [∀ h s a, Decidable (G h s a)] {acts : List α}
    (hplay : M.replay G [] M.init acts = some (h, s)) : Run M G h s :=
  Run.append_replay .init hplay

/-- A replay whose end passes a test, as a run. -/
theorem Run.exists_of_replay [∀ h s a, Decidable (G h s a)] (acts : List α)
    (P : History α ω → σ → Bool)
    (hplay : (M.replay G [] M.init acts).any (fun r => P r.1 r.2) = true) :
    ∃ h s, Run M G h s ∧ P h s = true := by
  obtain ⟨⟨h, s⟩, hr, hP⟩ := (Option.any_eq_true _ _).mp hplay
  exact ⟨h, s, .of_replay hr, hP⟩

/-- A replay after which one more allowed step passes a test of the history, the state
before it, the state after it and its output. -/
theorem Run.exists_step_of_replay [∀ h s a, Decidable (G h s a)] (acts : List α) (a : α)
    (P : History α ω → σ → σ → ω → Bool)
    (hplay : (M.replay G [] M.init acts).any
      (fun r => decide (G r.1 r.2 a) && (M.step r.2 a).any fun t => P r.1 r.2 t.1 t.2) = true) :
    ∃ h s s' o, Run M G h s ∧ G h s a ∧ M.step s a = some (s', o) ∧ P h s s' o = true := by
  obtain ⟨h, s, hrun, hstep⟩ := Run.exists_of_replay acts
    (fun h s => decide (G h s a) && (M.step s a).any fun t => P h s t.1 t.2) hplay
  rw [Bool.and_eq_true, decide_eq_true_eq] at hstep
  obtain ⟨⟨s', o⟩, hs, hP⟩ := (Option.any_eq_true _ _).mp hstep.2
  exact ⟨h, s, s', o, hrun, hstep.1, hs, hP⟩

/-- A replay that goes on from a state is a continuation. -/
theorem Continues.of_replay [∀ h s a, Decidable (G h s a)] {h₀ h' : History α ω} {s₀ t : σ}
    {acts : List α} (hplay : M.replay G h₀ s₀ acts = some (h', t)) :
    ∃ h, h' = h₀ ++ h ∧ Continues M G h₀ s₀ h t := by
  induction acts generalizing h₀ s₀ with
  | nil =>
      simp only [Machine.replay, Option.some.injEq, Prod.mk.injEq] at hplay
      obtain ⟨rfl, rfl⟩ := hplay
      exact ⟨[], (List.append_nil _).symm, .refl⟩
  | cons a rest ih =>
      simp only [Machine.replay] at hplay
      split at hplay
      · rename_i hg
        cases hs : M.step s₀ a with
        | none => simp [hs] at hplay
        | some r =>
            simp only [hs] at hplay
            obtain ⟨h, rfl, hcont⟩ := ih hplay
            exact ⟨[(a, r.2)] ++ h, List.append_assoc .., (Continues.single hg hs).trans hcont⟩
      · cases hplay

/-- A replay that goes on from the end of another one, under a condition of its own, and passes a
test of both. -/
theorem Continues.exists_of_replay {K : Guard σ α ω} [∀ h s a, Decidable (G h s a)]
    [∀ h s a, Decidable (K h s a)] (acts acts' : List α)
    (P : History α ω → σ → History α ω → σ → Bool)
    (hplay : (M.replay G [] M.init acts).any (fun r => (M.replay K r.1 r.2 acts').any
      fun t => P r.1 r.2 (t.1.drop r.1.length) t.2) = true) :
    ∃ h s h' s', Run M G h s ∧ Continues M K h s h' s' ∧ P h s h' s' = true := by
  obtain ⟨⟨h, s⟩, hr, hrest⟩ := (Option.any_eq_true _ _).mp hplay
  obtain ⟨⟨h', s'⟩, ht, hP⟩ := (Option.any_eq_true _ _).mp hrest
  obtain ⟨h'', rfl, hcont⟩ := Continues.of_replay ht
  rw [List.drop_left] at hP
  exact ⟨h, s, h'', s', .of_replay hr, hcont, hP⟩

end Trace
