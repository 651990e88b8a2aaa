import Mathlib.Data.Finset.Basic
import Mathlib.Data.List.Find

/-!
# Programs with locks

What one thread does to data of type `σ` under non-recursive locks of type
`ι`. To lock what it holds already blocks the thread for good, and to unlock
what it does not hold is an error: both end the program with a fault.

`Runs x s H H' Q` is the triple of this language: from the data `s` and the
held locks `H`, the program `x` ends without a fault, holding `H'`, with a
result and data in `Q`.

`Code` are the same programs as syntax, for threads that can be stopped
between any two steps: `Code.run` is the meaning of one, and `Code.Runs` has
the same rules.
-/

namespace Mutex

/-- How a program can go wrong. -/
inductive Fault (ι : Type)
  /-- It locks a lock it holds. -/
  | relock (i : ι)
  /-- It unlocks a lock it does not hold. -/
  | notHeld (i : ι)
  deriving DecidableEq, Repr

/-- Programs on data and held locks. -/
abbrev Prog (ι σ : Type) := StateT (σ × Finset ι) (Except (Fault ι))

variable {ι σ α β : Type}

/-- Read the data. -/
def reads (f : σ → α) : Prog ι σ α := fun st => .ok (f st.1, st)

/-- Write the data. -/
def change (f : σ → σ) : Prog ι σ Unit := fun st => .ok ((), f st.1, st.2)

/-- The body for each item, until it says that the loop is left; whether it was. -/
def loop (body : β → Prog ι σ Bool) : List β → Prog ι σ Bool
  | [] => pure false
  | b :: bs => do
      let left ← body b
      if left then pure true else loop body bs

/-- From `s` and `H`, the program ends, with `H'` and in `Q`. -/
def Runs (x : Prog ι σ α) (s : σ) (H H' : Finset ι) (Q : α → σ → Prop) : Prop :=
  ∃ a s', x (s, H) = .ok (a, s', H') ∧ Q a s'

section Locks

variable [DecidableEq ι]

/-- `pthread_mutex_lock` by a thread that may hold the lock already. -/
def lock (i : ι) : Prog ι σ Unit := fun st =>
  if i ∈ st.2 then .error (.relock i) else .ok ((), st.1, insert i st.2)

/-- `pthread_mutex_unlock`. -/
def unlock (i : ι) : Prog ι σ Unit := fun st =>
  if i ∈ st.2 then .ok ((), st.1, st.2.erase i) else .error (.notHeld i)

end Locks

variable {x : Prog ι σ α} {f : α → Prog ι σ β} {s : σ} {H K H' : Finset ι}
  {Q Q' : α → σ → Prop} {R : β → σ → Prop}

/-! ## Rules -/

theorem Runs.conseq (h : Runs x s H H' Q) (hQ : ∀ a s', Q a s' → Q' a s') :
    Runs x s H H' Q' := by
  obtain ⟨a, s', hrun, hq⟩ := h
  exact ⟨a, s', hrun, hQ a s' hq⟩

theorem Runs.pure {a : α} (h : Q a s) : Runs (Pure.pure a) s H H Q := ⟨a, s, rfl, h⟩

/-- One program after the other. -/
theorem Runs.bind (hx : Runs x s H K Q) (hf : ∀ a s', Q a s' → Runs (f a) s' K H' R) :
    Runs (x >>= f) s H H' R := by
  obtain ⟨a, s', hrun, hq⟩ := hx
  obtain ⟨b, s'', hrun', hr⟩ := hf a s' hq
  refine ⟨b, s'', ?_, hr⟩
  show (x (s, H) >>= fun p => f p.1 p.2) = _
  rw [hrun]
  exact hrun'

/-- Reading does not move anything. -/
theorem Runs.reads_bind {g : σ → α} (h : Runs (f (g s)) s H H' R) :
    Runs (Mutex.reads g >>= f) s H H' R := h

theorem Runs.change_bind {g : σ → σ} {k : Unit → Prog ι σ β} (h : Runs (k ()) (g s) H H' R) :
    Runs (Mutex.change g >>= k) s H H' R := h

/-- A program ends in one way. -/
theorem Runs.held_eq (h : Runs x s H K Q) (h' : Runs x s H H' Q') : K = H' := by
  obtain ⟨a, s', hrun, -⟩ := h
  obtain ⟨b, s'', hrun', -⟩ := h'
  rw [hrun, Except.ok.injEq, Prod.mk.injEq, Prod.mk.injEq] at hrun'
  exact hrun'.2.2

section Locks

variable [DecidableEq ι] {i : ι} {k : Unit → Prog ι σ β}

/-- A lock that is not held is taken. -/
theorem Runs.lock_bind (hi : i ∉ H) (h : Runs (k ()) s (insert i H) H' R) :
    Runs (lock i >>= k) s H H' R := by
  refine Runs.bind (Q := fun _ s' => s' = s) (K := insert i H) ⟨(), s, ?_, rfl⟩ ?_
  · exact if_neg hi
  · rintro - s' rfl
    exact h

/-- A lock that was taken is given back, with every other lock as it was. -/
theorem Runs.unlock {P : Unit → σ → Prop} (hi : i ∉ H) (h : P () s) :
    Runs (Mutex.unlock i) s (insert i H) H P := by
  refine ⟨(), s, ?_, h⟩
  show (if i ∈ insert i H then Except.ok ((), s, (insert i H).erase i) else _) = _
  rw [if_pos (Finset.mem_insert_self i H), Finset.erase_insert hi]

theorem Runs.unlock_bind (hi : i ∉ H) (h : Runs (k ()) s H H' R) :
    Runs (Mutex.unlock i >>= k) s (insert i H) H' R := by
  refine (Runs.unlock (P := fun _ s' => s' = s) hi rfl).bind ?_
  rintro - s' rfl
  exact h

end Locks

/-! ## Loops -/

/-- A loop that is left at the first item of some kind, where the locks may be others than at
its end. -/
theorem Runs.loop_bind {body : β → Prog ι σ Bool} {k : Bool → Prog ι σ α} {p : β → Bool}
    {I : σ → Prop} {J : β → σ → Prop} (bs : List β)
    (hskip : ∀ b ∈ bs, ∀ s, p b = false → I s →
      Runs (body b) s H H fun r s' => r = false ∧ I s')
    (hhit : ∀ b ∈ bs, ∀ s, p b = true → I s →
      Runs (body b) s H K fun r s' => r = true ∧ J b s')
    (hs : I s)
    (hend : ∀ s', bs.find? p = none → I s' → Runs (k false) s' H H' Q)
    (hleft : ∀ b s', bs.find? p = some b → J b s' → Runs (k true) s' K H' Q) :
    Runs (Mutex.loop body bs >>= k) s H H' Q := by
  induction bs generalizing s with
  | nil => exact hend s rfl hs
  | cons b bs ih =>
      show Runs ((body b >>= fun left => if left then Pure.pure true else Mutex.loop body bs) >>= k)
        s H H' Q
      rw [bind_assoc]
      have hb : b ∈ b :: bs := List.mem_cons_self
      cases hp : p b with
      | false =>
          have hfind : (b :: bs).find? p = bs.find? p := List.find?_cons_of_neg (by simp [hp])
          refine (hskip b hb s hp hs).bind ?_
          rintro r s' ⟨rfl, hs'⟩
          exact ih (fun c hc => hskip c (List.mem_cons_of_mem b hc))
            (fun c hc => hhit c (List.mem_cons_of_mem b hc)) hs' (hfind ▸ hend) (hfind ▸ hleft)
      | true =>
          refine (hhit b hb s hp hs).bind ?_
          rintro r s' ⟨rfl, hs'⟩
          exact hleft b s' (List.find?_cons_of_pos hp) hs'

/-! ## Step by step -/

/-- Programs, step by step. -/
inductive Code (ι σ α : Type)
  | ret (a : α)
  /-- Read the data. -/
  | ask (k : σ → Code ι σ α)
  /-- Write the data. -/
  | put (g : σ → σ) (k : Code ι σ α)
  | acquire (i : ι) (k : Code ι σ α)
  | release (i : ι) (k : Code ι σ α)

namespace Code

/-- One program after the other. -/
def bind : Code ι σ α → (α → Code ι σ β) → Code ι σ β
  | ret a, f => f a
  | ask k, f => ask fun s => (k s).bind f
  | put g k, f => put g (k.bind f)
  | acquire i k, f => acquire i (k.bind f)
  | release i k, f => release i (k.bind f)

instance : Monad (Code ι σ) where
  pure := ret
  bind := bind

/-- `Mutex.reads`. -/
def reads (f : σ → α) : Code ι σ α := ask fun s => ret (f s)

/-- `Mutex.change`. -/
def change (g : σ → σ) : Code ι σ Unit := put g (ret ())

/-- `Mutex.lock`. -/
def lock (i : ι) : Code ι σ Unit := acquire i (ret ())

/-- `Mutex.unlock`. -/
def unlock (i : ι) : Code ι σ Unit := release i (ret ())

/-- `Mutex.loop`. -/
def loop (body : β → Code ι σ Bool) : List β → Code ι σ Bool
  | [] => pure false
  | b :: bs => do
      let left ← body b
      if left then pure true else loop body bs

/-! ## Meaning -/

section Run

variable [DecidableEq ι]

/-- What the code does in one piece. -/
def run : Code ι σ α → Prog ι σ α
  | ret a => Pure.pure a
  | ask k => fun st => (k st.1).run st
  | put g k => Mutex.change g >>= fun _ => k.run
  | acquire i k => Mutex.lock i >>= fun _ => k.run
  | release i k => Mutex.unlock i >>= fun _ => k.run

@[simp] theorem run_pure (a : α) : (pure a : Code ι σ α).run = pure a := rfl

@[simp] theorem run_bind (x : Code ι σ α) (f : α → Code ι σ β) :
    (x >>= f).run = x.run >>= fun a => (f a).run := by
  show (x.bind f).run = _
  induction x with
  | ret a => rfl
  | ask k ih =>
      funext st
      exact congrFun (ih st.1) st
  | put g k ih => simp only [bind, run, ih, bind_assoc]
  | acquire i k ih => simp only [bind, run, ih, bind_assoc]
  | release i k ih => simp only [bind, run, ih, bind_assoc]

@[simp] theorem run_reads (f : σ → α) : (reads f : Code ι σ α).run = Mutex.reads f := rfl

@[simp] theorem run_change (g : σ → σ) : (change g : Code ι σ Unit).run = Mutex.change g := rfl

@[simp] theorem run_lock (i : ι) : (lock i : Code ι σ Unit).run = Mutex.lock i :=
  bind_pure _

@[simp] theorem run_unlock (i : ι) : (unlock i : Code ι σ Unit).run = Mutex.unlock i :=
  bind_pure _

@[simp] theorem run_ite {c : Prop} [Decidable c] (x y : Code ι σ α) :
    (if c then x else y).run = if c then x.run else y.run :=
  apply_ite run ..

@[simp] theorem run_loop (body : β → Code ι σ Bool) (bs : List β) :
    (loop body bs).run = Mutex.loop (fun b => (body b).run) bs := by
  induction bs with
  | nil => rfl
  | cons b bs ih => simp only [loop, Mutex.loop, run_bind, run_ite, run_pure, ih]

end Run

/-! ## Rules for codes -/

section Rules

variable [DecidableEq ι] {x : Code ι σ α} {f : α → Code ι σ β} {k : Unit → Code ι σ β} {s : σ}
  {H K H' : Finset ι} {Q Q' : α → σ → Prop} {R : β → σ → Prop} {i : ι}

/-- The triple of codes. -/
def Runs (x : Code ι σ α) (s : σ) (H H' : Finset ι) (Q : α → σ → Prop) : Prop :=
  Mutex.Runs x.run s H H' Q

theorem Runs.conseq (h : Runs x s H H' Q) (hQ : ∀ a s', Q a s' → Q' a s') : Runs x s H H' Q' :=
  Mutex.Runs.conseq h hQ

theorem Runs.pure {a : α} (h : Q a s) : Runs (Pure.pure a) s H H Q := Mutex.Runs.pure h

theorem Runs.bind (hx : Runs x s H K Q) (hf : ∀ a s', Q a s' → Runs (f a) s' K H' R) :
    Runs (x >>= f) s H H' R := by
  rw [Runs, run_bind]
  exact Mutex.Runs.bind hx hf

theorem Runs.reads_bind {g : σ → α} (h : Runs (f (g s)) s H H' R) :
    Runs (reads g >>= f) s H H' R := h

theorem Runs.change_bind {g : σ → σ} (h : Runs (k ()) (g s) H H' R) :
    Runs (change g >>= k) s H H' R := h

theorem Runs.held_eq (h : Runs x s H K Q) (h' : Runs x s H H' Q') : K = H' :=
  Mutex.Runs.held_eq h h'

theorem Runs.lock_bind (hi : i ∉ H) (h : Runs (k ()) s (insert i H) H' R) :
    Runs (lock i >>= k) s H H' R := by
  rw [Runs, run_bind, run_lock]
  exact Mutex.Runs.lock_bind hi h

theorem Runs.unlock {P : Unit → σ → Prop} (hi : i ∉ H) (h : P () s) :
    Runs (Code.unlock i) s (insert i H) H P := by
  rw [Runs, run_unlock]
  exact Mutex.Runs.unlock hi h

theorem Runs.unlock_bind (hi : i ∉ H) (h : Runs (k ()) s H H' R) :
    Runs (Code.unlock i >>= k) s (insert i H) H' R := by
  rw [Runs, run_bind, run_unlock]
  exact Mutex.Runs.unlock_bind hi h

theorem Runs.loop_bind {body : β → Code ι σ Bool} {k : Bool → Code ι σ α} {p : β → Bool}
    {I : σ → Prop} {J : β → σ → Prop} (bs : List β)
    (hskip : ∀ b ∈ bs, ∀ s, p b = false → I s →
      Runs (body b) s H H fun r s' => r = false ∧ I s')
    (hhit : ∀ b ∈ bs, ∀ s, p b = true → I s →
      Runs (body b) s H K fun r s' => r = true ∧ J b s')
    (hs : I s)
    (hend : ∀ s', bs.find? p = none → I s' → Runs (k false) s' H H' Q)
    (hleft : ∀ b s', bs.find? p = some b → J b s' → Runs (k true) s' K H' Q) :
    Runs (loop body bs >>= k) s H H' Q := by
  rw [Runs, run_bind, run_loop]
  exact Mutex.Runs.loop_bind bs hskip hhit hs hend hleft

end Rules

end Code

end Mutex
