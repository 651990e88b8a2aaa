import LinuxChat.Lib.Mutex
import LinuxChat.Lib.Trace
import Mathlib.Data.DFinsupp.WellFounded

/-!
# Threads under locks

Threads that run codes at the same time and share data and locks: each can be
stopped between any two of its steps. One that is about to lock what is taken
waits, also for itself.

A code is `Ordered` where it takes its locks in ascending order, gives back
what it takes, and changes the data only in ways `P` allows under the locks it
holds. Threads whose codes are ordered never all wait, and never go on forever
(`Disciplined.exists_step`, `not_forever`).
-/

namespace Mutex

open Trace

variable {ι σ α β τ κ η : Type}

namespace Code

theorem bind_ret (x : Code ι σ α) : x.bind ret = x := by
  induction x with
  | ret a => rfl
  | ask k ih => exact congrArg ask (funext ih)
  | put g k ih => exact congrArg (put g) ih
  | acquire i k ih => exact congrArg (acquire i) ih
  | release i k ih => exact congrArg (release i) ih

/-! ## Order -/

section Order

variable [LT ι] {P : Set ι → (σ → σ) → Prop} {H : Set ι}

/-- From the locks `H` on the code takes locks in order and ends with those `K` tells of its
result; `P` allows every write under the locks held at it. -/
def Ordered (P : Set ι → (σ → σ) → Prop) : Set ι → Code ι σ α → (α → Set ι) → Prop
  | H, ret a, K => K a = H
  | H, ask k, K => ∀ s, Ordered P H (k s) K
  | H, put g k, K => P H g ∧ Ordered P H k K
  | H, acquire i k, K => (∀ j ∈ H, j < i) ∧ Ordered P (insert i H) k K
  | H, release i k, K => i ∈ H ∧ Ordered P (H \ {i}) k K

variable {x : Code ι σ α} {f : α → Code ι σ β} {K : α → Set ι} {K' : β → Set ι}

theorem Ordered.pure {a : α} (h : K a = H) : Ordered P H (Pure.pure a) K := h

theorem Ordered.bind (hx : Ordered P H x K) (hf : ∀ a, Ordered P (K a) (f a) K') :
    Ordered P H (x >>= f) K' := by
  show Ordered P H (x.bind f) K'
  induction x generalizing H with
  | ret a =>
      have hK : K a = H := hx
      rw [← hK]
      exact hf a
  | ask k ih => exact fun s => ih s (hx s)
  | put g k ih => exact ⟨hx.1, ih hx.2⟩
  | acquire i k ih => exact ⟨hx.1, ih hx.2⟩
  | release i k ih => exact ⟨hx.1, ih hx.2⟩

/-- Where a code ends with the same locks whatever its result. -/
theorem Ordered.seq {H' : Set ι} (hx : Ordered P H x fun _ => H')
    (hf : ∀ a, Ordered P H' (f a) K') : Ordered P H (x >>= f) K' :=
  hx.bind hf

theorem Ordered.reads {g : σ → α} : Ordered P H (Code.reads g) fun _ => H := fun _ => rfl

theorem Ordered.change {g : σ → σ} (hg : P H g) : Ordered P H (Code.change g) fun _ => H :=
  ⟨hg, rfl⟩

theorem Ordered.lock {i : ι} (hi : ∀ j ∈ H, j < i) :
    Ordered P H (Code.lock i) fun _ => insert i H :=
  ⟨hi, rfl⟩

theorem Ordered.unlock {i : ι} (hi : i ∉ H) :
    Ordered P (insert i H) (Code.unlock i) fun _ => H :=
  ⟨Set.mem_insert i H, (Set.insert_sdiff_self_of_notMem hi).symm⟩

/-- A loop whose body keeps the locks where it goes on. -/
theorem Ordered.loop {body : β → Code ι σ Bool} {H' : Set ι}
    (hbody : ∀ b, Ordered P H (body b) fun left => if left then H' else H) (bs : List β) :
    Ordered P H (Code.loop body bs) fun left => if left then H' else H := by
  induction bs with
  | nil => exact Ordered.pure rfl
  | cons b bs ih =>
      refine (hbody b).bind fun left => ?_
      cases left with
      | true => exact Ordered.pure rfl
      | false => exact ih

/-- A loop whose body gives back what it takes. -/
theorem Ordered.loop_same {body : β → Code ι σ Bool}
    (hbody : ∀ b, Ordered P H (body b) fun _ => H) (bs : List β) :
    Ordered P H (Code.loop body bs) fun _ => H := by
  have hloop : Ordered P H (Code.loop body bs) fun left => if left then H else H :=
    Ordered.loop (fun b => by simpa only [ite_self] using hbody b) bs
  simpa only [ite_self] using hloop

end Order

/-! ## Steps to go -/

/-- What is left of a code after a step. -/
inductive Rest : Code ι σ α → Code ι σ α → Prop
  | ask (k s) : Rest (k s) (ask k)
  | put (g k) : Rest k (put g k)
  | acquire (i k) : Rest k (acquire i k)
  | release (i k) : Rest k (release i k)

theorem rest_wellFounded : WellFounded (Rest : Code ι σ α → Code ι σ α → Prop) := by
  refine ⟨fun x => ?_⟩
  induction x with
  | ret a =>
      refine ⟨_, fun y hy => ?_⟩
      cases hy
  | ask k ih =>
      refine ⟨_, fun y hy => ?_⟩
      cases hy
      exact ih _
  | put g k ih =>
      refine ⟨_, fun y hy => ?_⟩
      cases hy
      exact ih
  | acquire i k ih =>
      refine ⟨_, fun y hy => ?_⟩
      cases hy
      exact ih
  | release i k ih =>
      refine ⟨_, fun y hy => ?_⟩
      cases hy
      exact ih

end Code

/-! ## Threads -/

/-- The data, who holds each lock, and what each thread has still to do. -/
structure Threads (τ ι σ : Type) where
  data : σ
  owner : ι → Option τ
  code : τ → Code ι σ Unit

namespace Threads

/-- The locks of a thread. -/
def held (s : Threads τ ι σ) (t : τ) : Set ι := {i | s.owner i = some t}

/-- Every thread has done what it had to do. -/
def Finished (s : Threads τ ι σ) : Prop := ∀ t, s.code t = .ret ()

/-- The codes are ordered from the locks their threads hold, and end with none. -/
def Disciplined [LT ι] (P : Set ι → (σ → σ) → Prop) (s : Threads τ ι σ) : Prop :=
  ∀ t, Code.Ordered P (s.held t) (s.code t) fun _ => ∅

variable {s s' : Threads τ ι σ} {t u : τ} {i : ι}

/-! ## Steps -/

section Owners

variable [DecidableEq ι]

/-- Lock `i` has this owner from now on. -/
def own (s : Threads τ ι σ) (i : ι) (o : Option τ) : Threads τ ι σ :=
  { s with owner := Function.update s.owner i o }

@[simp] theorem own_data (o : Option τ) : (s.own i o).data = s.data := rfl

@[simp] theorem own_code (o : Option τ) : (s.own i o).code = s.code := rfl

theorem own_held_self (t : τ) : (s.own i (some t)).held t = insert i (s.held t) := by
  ext j
  show Function.update s.owner i (some t) j = some t ↔ j = i ∨ s.owner j = some t
  rw [Function.update_apply]
  split
  · rename_i hj
    simp [hj]
  · rename_i hj
    simp [hj]

theorem own_held_none (t : τ) : (s.own i none).held t = s.held t \ {i} := by
  ext j
  show Function.update s.owner i none j = some t ↔ s.owner j = some t ∧ j ≠ i
  rw [Function.update_apply]
  split
  · rename_i hj
    simp [hj]
  · rename_i hj
    simp [hj]

/-- Those who neither held the lock nor get it hold what they held. -/
theorem own_held_of_ne {o : Option τ} (hold : s.owner i ≠ some u) (hnew : o ≠ some u) :
    (s.own i o).held u = s.held u := by
  ext j
  show Function.update s.owner i o j = some u ↔ s.owner j = some u
  rw [Function.update_apply]
  split
  · rename_i hj
    subst hj
    exact iff_of_false hnew hold
  · exact Iff.rfl

end Owners

section Steps

variable [DecidableEq τ]

/-- Thread `t` goes on with `k`. -/
def goOn (s : Threads τ ι σ) (t : τ) (k : Code ι σ Unit) : Threads τ ι σ :=
  { s with code := Function.update s.code t k }

@[simp] theorem goOn_data (k : Code ι σ Unit) : (s.goOn t k).data = s.data := rfl

@[simp] theorem goOn_held (k : Code ι σ Unit) (u : τ) : (s.goOn t k).held u = s.held u := rfl

@[simp] theorem goOn_code_self (k : Code ι σ Unit) : (s.goOn t k).code t = k :=
  Function.update_self ..

theorem goOn_code_of_ne (hu : u ≠ t) (k : Code ι σ Unit) : (s.goOn t k).code u = s.code u :=
  Function.update_of_ne hu ..

variable [DecidableEq ι]

/-- One step of a thread; `none` while it waits, and where it is at its end. -/
def step (s : Threads τ ι σ) (t : τ) : Option (Threads τ ι σ) :=
  match s.code t with
  | .ret _ => none
  | .ask k => some (s.goOn t (k s.data))
  | .put g k => some ({ s with data := g s.data }.goOn t k)
  | .acquire i k =>
      match s.owner i with
      | none => some ((s.own i (some t)).goOn t k)
      | some _ => none
  | .release i k => if s.owner i = some t then some ((s.own i none).goOn t k) else none

/-- What a step of a thread with an ordered code does. -/
structure Stepped [LT ι] (P : Set ι → (σ → σ) → Prop) (s : Threads τ ι σ) (t : τ)
    (s' : Threads τ ι σ) : Prop where
  rest : Code.Rest (s'.code t) (s.code t)
  ordered : Code.Ordered P (s'.held t) (s'.code t) fun _ => ∅
  code : ∀ u, u ≠ t → s'.code u = s.code u
  held : ∀ u, u ≠ t → s'.held u = s.held u
  data : s'.data = s.data ∨ ∃ g, P (s.held t) g ∧ s'.data = g s.data

variable [LT ι] {P : Set ι → (σ → σ) → Prop}

theorem stepped (hd : Code.Ordered P (s.held t) (s.code t) fun _ => ∅)
    (hstep : s.step t = some s') : Stepped P s t s' := by
  cases hcode : s.code t with
  | ret a => simp [step, hcode] at hstep
  | ask k =>
      rw [hcode] at hd
      simp only [step, hcode, Option.some.injEq] at hstep
      subst hstep
      refine ⟨?_, ?_, fun u hu => goOn_code_of_ne hu _, fun _ _ => rfl, .inl rfl⟩
      · rw [hcode, goOn_code_self]
        exact .ask k s.data
      · rw [goOn_code_self, goOn_held]
        exact hd s.data
  | put g k =>
      rw [hcode] at hd
      simp only [step, hcode, Option.some.injEq] at hstep
      subst hstep
      refine ⟨?_, ?_, fun u hu => goOn_code_of_ne hu _, fun _ _ => rfl, .inr ⟨g, hd.1, rfl⟩⟩
      · rw [hcode, goOn_code_self]
        exact .put g k
      · rw [goOn_code_self, goOn_held]
        exact hd.2
  | acquire i k =>
      rw [hcode] at hd
      simp only [step, hcode] at hstep
      split at hstep
      · rename_i hfree
        cases hstep
        refine ⟨?_, ?_, fun u hu => goOn_code_of_ne hu _, fun u hu => ?_, .inl rfl⟩
        · rw [hcode, goOn_code_self]
          exact .acquire i k
        · rw [goOn_code_self, goOn_held, own_held_self]
          exact hd.2
        · rw [goOn_held, own_held_of_ne (by simp [hfree]) (by simp [Ne.symm hu])]
      · cases hstep
  | release i k =>
      rw [hcode] at hd
      simp only [step, hcode] at hstep
      split at hstep
      · rename_i hown
        cases hstep
        refine ⟨?_, ?_, fun u hu => goOn_code_of_ne hu _, fun u hu => ?_, .inl rfl⟩
        · rw [hcode, goOn_code_self]
          exact .release i k
        · rw [goOn_code_self, goOn_held, own_held_none]
          exact hd.2
        · rw [goOn_held, own_held_of_ne (by simp [hown, Ne.symm hu]) (by simp)]
      · cases hstep

/-- Threads that stick to the discipline go on sticking to it. -/
theorem Disciplined.step (hd : s.Disciplined P) (hstep : s.step t = some s') :
    s'.Disciplined P := by
  have h := stepped (hd t) hstep
  intro u
  by_cases hu : u = t
  · subst hu
    exact h.ordered
  · rw [h.held u hu, h.code u hu]
    exact hd u

end Steps

section Codes

variable [DecidableEq τ] [LT ι] {P : Set ι → (σ → σ) → Prop} {x : Code ι σ Unit}

/-- A thread may go on with any code that is ordered from the locks it holds. -/
theorem Disciplined.goOn (hd : s.Disciplined P)
    (hx : Code.Ordered P (s.held t) x fun _ => ∅) : (s.goOn t x).Disciplined P := by
  intro u
  rw [goOn_held]
  by_cases hu : u = t
  · subst hu
    rw [goOn_code_self]
    exact hx
  · rw [goOn_code_of_ne hu]
    exact hd u

/-- A thread that is at its end may take up any ordered code. -/
theorem Disciplined.call (hd : s.Disciplined P) (hidle : s.code t = .ret ())
    (hx : Code.Ordered P ∅ x fun _ => ∅) : (s.goOn t x).Disciplined P := by
  have hheld := hd t
  rw [hidle] at hheld
  have hnone : ∅ = s.held t := hheld
  rw [hnone] at hx
  exact hd.goOn (hnone ▸ hx)

/-- A thread may be interrupted by code that ends with the locks it found. -/
theorem Disciplined.interrupt (hd : s.Disciplined P)
    (hx : Code.Ordered P (s.held t) x fun _ => s.held t) :
    (s.goOn t (x >>= fun _ => s.code t)).Disciplined P :=
  hd.goOn (hx.seq fun _ => hd t)

end Codes

/-! ## Progress -/

section Progress

variable [DecidableEq τ] [DecidableEq ι] [LT ι] {P : Set ι → (σ → σ) → Prop}

/-- A thread that is not at its end takes a step, or waits for a lock above all of its own. -/
theorem Disciplined.steps_or_waits (hd : s.Disciplined P) (hleft : s.code t ≠ .ret ()) :
    (∃ s', s.step t = some s') ∨ ∃ j u, s.owner j = some u ∧ ∀ i ∈ s.held t, i < j := by
  have ht := hd t
  cases hcode : s.code t with
  | ret a => exact absurd hcode hleft
  | ask k =>
      left
      exact ⟨_, by simp only [Threads.step, hcode]; rfl⟩
  | put g k =>
      left
      exact ⟨_, by simp only [Threads.step, hcode]; rfl⟩
  | acquire j k =>
      rw [hcode] at ht
      cases hown : s.owner j with
      | none =>
          left
          exact ⟨_, by simp only [Threads.step, hcode, hown]; rfl⟩
      | some u =>
          right
          exact ⟨j, u, hown, ht.1⟩
  | release j k =>
      rw [hcode] at ht
      left
      have hown : s.owner j = some t := ht.1
      exact ⟨_, by simp only [Threads.step, hcode, if_pos hown]; rfl⟩

variable [WellFoundedGT ι]

/-- Where a lock is taken, some thread takes a step: the waiting ends at the latest with the holder
of the last lock. -/
theorem Disciplined.holder_steps (hd : s.Disciplined P) (i : ι) (hheld : i ∈ s.held t) :
    ∃ u s', s.step u = some s' := by
  induction i using WellFoundedGT.induction generalizing t with
  | ind i ih =>
      have hleft : s.code t ≠ .ret () := by
        intro hend
        have ht := hd t
        rw [hend] at ht
        have hnone : ∅ = s.held t := ht
        rw [← hnone] at hheld
        exact hheld
      rcases hd.steps_or_waits hleft with ⟨s', hstep⟩ | ⟨j, u, hown, habove⟩
      · exact ⟨t, s', hstep⟩
      · exact ih j (habove i hheld) hown

/-- Threads that stick to the discipline never all wait. -/
theorem Disciplined.exists_step (hd : s.Disciplined P) (hleft : ¬ s.Finished) :
    ∃ u s', s.step u = some s' := by
  obtain ⟨t, ht⟩ := not_forall.mp hleft
  rcases hd.steps_or_waits ht with ⟨s', hstep⟩ | ⟨j, u, hown, -⟩
  · exact ⟨t, s', hstep⟩
  · exact hd.holder_steps j hown

end Progress

section End

variable [DecidableEq τ] [DecidableEq ι] [LT ι] {P : Set ι → (σ → σ) → Prop} [Finite τ]

/-- Every step leaves less to do. -/
theorem steps_wellFounded : WellFounded fun s' s : Threads τ ι σ =>
    s.Disciplined P ∧ ∃ t, s.step t = some s' := by
  have hlex : WellFounded (InvImage (Pi.Lex WellOrderingRel fun {_} => Code.Rest)
      (code : Threads τ ι σ → τ → Code ι σ Unit)) :=
    InvImage.wf _ (Pi.Lex.wellFounded _ fun _ => Code.rest_wellFounded)
  refine Subrelation.wf ?_ hlex
  rintro s' s ⟨hd, t, hstep⟩
  have h := stepped (hd t) hstep
  refine ⟨t, fun u hu => h.code u ?_, h.rest⟩
  rintro rfl
  exact irrefl _ hu

/-- Threads that stick to the discipline and take up nothing new do not go on forever. -/
theorem not_forever {f : ℕ → Threads τ ι σ} (hd : (f 0).Disciplined P) :
    ∃ n, ∀ t, (f n).step t ≠ some (f (n + 1)) := by
  by_contra hall
  push Not at hall
  have hdn : ∀ n, (f n).Disciplined P := by
    intro n
    induction n with
    | zero => exact hd
    | succ n ih =>
        obtain ⟨t, hstep⟩ := hall n
        exact ih.step hstep
  have hwf : WellFounded fun s' s : Threads τ ι σ => s.Disciplined P ∧ ∃ t, s.step t = some s' :=
    steps_wellFounded
  exact (wellFounded_iff_isEmpty_descending_chain.mp hwf).false ⟨f, fun n => ⟨hdn n, hall n⟩⟩

end End

end Threads

/-! ## Calls and interrupts -/

inductive ThreadsAct (τ κ η : Type)
  /-- A thread that is at its end takes up a call. -/
  | call (t : τ) (c : κ)
  /-- A thread takes up the handler of a signal in front of what it has to do. -/
  | interrupt (t : τ) (c : η)
  | step (t : τ)
  deriving DecidableEq

section Machine

variable [DecidableEq τ] [DecidableEq ι]

/-- Threads that call programs, and are interrupted by a handler. -/
def threadsMachine (prog : κ → Code ι σ Unit) (handler : η → Code ι σ Unit) (d : σ) :
    Machine (Threads τ ι σ) (ThreadsAct τ κ η) Unit where
  init := ⟨d, fun _ => none, fun _ => .ret ()⟩
  step s
    | .call t c =>
        match s.code t with
        | .ret _ => some (s.goOn t (prog c), ())
        | _ => none
    | .interrupt t c => some (s.goOn t (handler c >>= fun _ => s.code t), ())
    | .step t => (s.step t).map fun s' => (s', ())

variable {prog : κ → Code ι σ Unit} {handler : η → Code ι σ Unit} {d : σ} {s : Threads τ ι σ}

theorem call_eq_some {s' : Threads τ ι σ} {t : τ} {c : κ} {o : Unit} :
    (threadsMachine prog handler d).step s (.call t c) = some (s', o) ↔
      s.code t = .ret () ∧ s' = s.goOn t (prog c) := by
  simp only [threadsMachine]
  split
  · rename_i hidle
    simp [hidle, eq_comm]
  · rename_i hbusy
    constructor
    · intro hstep
      cases hstep
    · intro h
      exact absurd h.1 (hbusy ())

theorem interrupt_eq_some {s' : Threads τ ι σ} {t : τ} {c : η} {o : Unit} :
    (threadsMachine prog handler d).step s (.interrupt t c) = some (s', o) ↔
      s' = s.goOn t (handler c >>= fun _ => s.code t) := by
  simp only [threadsMachine, Option.some.injEq, Prod.mk.injEq, and_true]
  exact eq_comm

theorem step_eq_some {s' : Threads τ ι σ} {t : τ} {o : Unit} :
    (threadsMachine prog handler d).step s (.step t) = some (s', o) ↔ s.step t = some s' := by
  simp only [threadsMachine, Option.map_eq_some_iff, Prod.mk.injEq, and_true, exists_eq_right]

variable [LT ι] {P : Set ι → (σ → σ) → Prop} {h : History (ThreadsAct τ κ η) Unit}

/-- Calls are ordered, and so is the handler from the locks of the thread it interrupts. -/
def inOrder (P : Set ι → (σ → σ) → Prop) (prog : κ → Code ι σ Unit) (handler : η → Code ι σ Unit) :
    Guard (Threads τ ι σ) (ThreadsAct τ κ η) Unit := fun _ s a =>
  match a with
  | .call _ c => Code.Ordered P ∅ (prog c) fun _ => ∅
  | .interrupt t c => Code.Ordered P (s.held t) (handler c) fun _ => s.held t
  | .step _ => True

/-- In every run of ordered calls the threads stick to the discipline. -/
theorem run_disciplined (hrun : Run (threadsMachine prog handler d) (inOrder P prog handler) h s) :
    s.Disciplined P := by
  refine hrun.invariant (I := fun _ s => s.Disciplined P) (fun t => ?_) ?_
  · show (∅ : Set ι) = _
    ext i
    simp [threadsMachine, Threads.held]
  · intro h s a s' o hd hg hstep
    cases a with
    | call t c =>
        obtain ⟨hidle, rfl⟩ := call_eq_some.mp hstep
        exact hd.call hidle hg
    | interrupt t c =>
        rw [interrupt_eq_some.mp hstep]
        exact hd.interrupt hg
    | step t => exact hd.step (step_eq_some.mp hstep)

end Machine

/-! ## A thread alone -/

section Alone

variable [DecidableEq τ] [DecidableEq ι] {prog : κ → Code ι σ Unit} {handler : η → Code ι σ Unit}
  {d d' : σ} {s s₁ : Threads τ ι σ} {t : τ} {c k : Code ι σ Unit} {H H' : Finset ι}

/-- The locks of `H` are those of thread `t`, and the others are free. -/
def Threads.Holds (s : Threads τ ι σ) (t : τ) (H : Finset ι) : Prop :=
  ∀ i, s.owner i = if i ∈ H then some t else none

/-- By steps of thread `t` alone, the data become `d'`, the thread comes to `c` and holds `H'`. -/
def ComesTo (prog : κ → Code ι σ Unit) (handler : η → Code ι σ Unit) (d : σ) (s : Threads τ ι σ)
    (t : τ) (d' : σ) (c : Code ι σ Unit) (H' : Finset ι) : Prop :=
  ∃ n s', (threadsMachine prog handler d).after s (List.replicate n (.step t)) = some s' ∧
    s'.data = d' ∧ s'.code t = c ∧ s'.Holds t H' ∧ ∀ u, u ≠ t → s'.code u = s.code u

theorem ComesTo.step (hstep : s.step t = some (s₁.goOn t k)) (hcode : s₁.code = s.code)
    (h : ComesTo prog handler d (s₁.goOn t k) t d' c H') :
    ComesTo prog handler d s t d' c H' := by
  obtain ⟨n, s', hafter, hdata, hend, hheld, hother⟩ := h
  refine ⟨n + 1, s', ?_, hdata, hend, hheld, fun u hu => ?_⟩
  · have hfirst : (threadsMachine prog handler d).step s (.step t) = some (s₁.goOn t k, ()) := by
      simp only [threadsMachine, hstep, Option.map_some]
    rw [List.replicate_succ, Machine.after_cons hfirst, hafter]
  · rw [hother u hu, Threads.goOn_code_of_ne hu, hcode]

/-- A thread that nobody gets in the way of does what its program does. -/
theorem comesTo {x : Code ι σ α} {f : α → Code ι σ Unit} {a : α} (hcode : s.code t = x.bind f)
    (hheld : s.Holds t H) (hrun : x.run (s.data, H) = .ok (a, d', H')) :
    ComesTo prog handler d s t d' (f a) H' := by
  induction x generalizing s H with
  | ret b =>
      cases hrun
      exact ⟨0, s, rfl, rfl, hcode, hheld, fun _ _ => rfl⟩
  | ask k ih =>
      have hstep : s.step t = some (s.goOn t ((k s.data).bind f)) := by
        simp only [Threads.step, hcode, Code.bind]
      exact ComesTo.step hstep rfl (ih s.data (Threads.goOn_code_self _) hheld hrun)
  | put g k ih =>
      have hstep : s.step t = some ({ s with data := g s.data }.goOn t (k.bind f)) := by
        simp only [Threads.step, hcode, Code.bind]
      exact ComesTo.step hstep rfl (ih (Threads.goOn_code_self _) hheld hrun)
  | acquire i k ih =>
      by_cases hi : i ∈ H
      · -- It would wait for itself.
        have hfault : (Code.acquire i k).run (s.data, H) = .error (.relock i) := by
          show (Mutex.lock i (s.data, H) >>= fun p => k.run p.2) = _
          rw [Mutex.lock, if_pos hi]
          rfl
        rw [hfault] at hrun
        cases hrun
      · have hfree : s.owner i = none := by rw [hheld i, if_neg hi]
        have hstep : s.step t = some ((s.own i (some t)).goOn t (k.bind f)) := by
          simp only [Threads.step, hcode, Code.bind, hfree]
        refine ComesTo.step hstep rfl (ih (H := insert i H) (Threads.goOn_code_self _) ?_ ?_)
        · intro j
          show Function.update s.owner i (some t) j = _
          rw [Function.update_apply, hheld j]
          by_cases hj : j = i
          · simp [hj]
          · simp [hj]
        · have hrun' : (Mutex.lock i (s.data, H) >>= fun p => k.run p.2) = .ok (a, d', H') := hrun
          rw [Mutex.lock, if_neg hi] at hrun'
          exact hrun'
  | release i k ih =>
      by_cases hi : i ∈ H
      · have hown : s.owner i = some t := by rw [hheld i, if_pos hi]
        have hstep : s.step t = some ((s.own i none).goOn t (k.bind f)) := by
          simp only [Threads.step, hcode, Code.bind, if_pos hown]
        refine ComesTo.step hstep rfl (ih (H := H.erase i) (Threads.goOn_code_self _) ?_ ?_)
        · intro j
          show Function.update s.owner i none j = _
          rw [Function.update_apply, hheld j]
          by_cases hj : j = i
          · simp [hj]
          · simp [hj]
        · have hrun' : (Mutex.unlock i (s.data, H) >>= fun p => k.run p.2) = .ok (a, d', H') := hrun
          rw [Mutex.unlock, if_pos hi] at hrun'
          exact hrun'
      · have hfault : (Code.release i k).run (s.data, H) = .error (.notHeld i) := by
          show (Mutex.unlock i (s.data, H) >>= fun p => k.run p.2) = _
          rw [Mutex.unlock, if_neg hi]
          rfl
        rw [hfault] at hrun
        cases hrun

end Alone

end Mutex
