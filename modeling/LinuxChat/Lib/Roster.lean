import Mathlib.Data.Finset.Insert
import Mathlib.Data.Finset.Erase

/-!
# Sets kept by notices

A peer that is told of additions and removals, one at a time, keeps a set:
the fold of the notices in the order they come. What a peer believes after a
batch of additions, or after one more notice, follows from what it believed
before.
-/

/-- One change of membership. -/
inductive Notice (κ : Type)
  | added (k : κ)
  | removed (k : κ)
  deriving DecidableEq

namespace Notice

variable {κ : Type} [DecidableEq κ]

/-- The member a notice is about. -/
def about : Notice κ → κ
  | .added k => k
  | .removed k => k

/-- What one notice makes of a set. -/
def apply (s : Finset κ) : Notice κ → Finset κ
  | .added k => insert k s
  | .removed k => s.erase k

/-- The set after all notices. -/
def roster (l : List (Notice κ)) : Finset κ := l.foldl apply ∅

@[simp] theorem roster_nil : roster ([] : List (Notice κ)) = ∅ := rfl

theorem roster_append (l l' : List (Notice κ)) : roster (l ++ l') = l'.foldl apply (roster l) := by
  simp [roster, List.foldl_append]

theorem mem_roster_added {l : List (Notice κ)} {k n : κ} :
    n ∈ roster (l ++ [added k]) ↔ n = k ∨ n ∈ roster l := by
  simp [roster_append, apply]

theorem mem_roster_removed {l : List (Notice κ)} {k n : κ} :
    n ∈ roster (l ++ [removed k]) ↔ n ≠ k ∧ n ∈ roster l := by
  simp [roster_append, apply]

/-- After a batch of additions. -/
theorem mem_roster_append_map {l : List (Notice κ)} {ks : List κ} {n : κ} :
    n ∈ roster (l ++ ks.map added) ↔ n ∈ ks ∨ n ∈ roster l := by
  induction ks generalizing l with
  | nil => simp
  | cons k ks ih =>
      -- Take the first addition over to the left.
      have hsplit : l ++ (k :: ks).map added = (l ++ [added k]) ++ ks.map added := by simp
      rw [hsplit, ih, mem_roster_added, List.mem_cons, or_assoc, or_left_comm]

end Notice
