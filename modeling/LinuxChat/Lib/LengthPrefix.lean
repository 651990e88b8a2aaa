import Mathlib.Data.List.Induction

/-!
# Streams of frames with a length

A frame is a header of a fixed length and a body whose length the header
tells. `split` cuts what has arrived of a stream into its whole frames and a
rest; `feed` does so with a stream that arrives in pieces, and keeps the rest
for the next piece.

* `split_eq` — the one way to cut a stream into frames and a rest;
* `split_append` — what has been cut stays cut;
* `feedAll_eq` — the pieces make no difference;
* `split_starts` — the beginning of a stream of frames gives its first frames.
-/

namespace LengthPrefix

/-- The length of the header, and of the body that a header announces. -/
structure Format (α : Type*) where
  header : Nat
  pos : 0 < header
  body : List α → Nat

variable {α : Type*}

namespace Format

variable (F : Format α)

/-- The length of the frame that starts here. -/
def size (s : List α) : Nat := F.header + F.body (s.take F.header)

/-- The items are one frame: as many as their prefix says. -/
def IsFrame (f : List α) : Prop := F.size f = f.length

/-- What has arrived starts with a frame. -/
def Ready (s : List α) : Prop := F.size s ≤ s.length

instance (s : List α) : Decidable (F.Ready s) := inferInstanceAs (Decidable (_ ≤ _))

theorem size_pos (s : List α) : 0 < F.size s := Nat.add_pos_left F.pos _

/-- The frames of a stream and what is left behind them. -/
def split (s : List α) : List (List α) × List α :=
  if F.Ready s then
    let r := split (s.drop (F.size s))
    (s.take (F.size s) :: r.1, r.2)
  else ([], s)
termination_by s.length
decreasing_by
  rename_i hs
  have hpos := F.size_pos s
  have hle : F.size s ≤ s.length := hs
  rw [List.length_drop]
  omega

/-- One more piece of the stream. -/
def feed (r : List (List α) × List α) (piece : List α) : List (List α) × List α :=
  let next := F.split (r.2 ++ piece)
  (r.1 ++ next.1, next.2)

/-- All pieces of a stream. -/
def feedAll (pieces : List (List α)) : List (List α) × List α := pieces.foldl F.feed ([], [])

variable {F} {f s t : List α} {fs : List (List α)}

/-! ## Frames -/

/-- The header decides, whatever follows. -/
theorem size_append (hs : F.Ready s) (t : List α) : F.size (s ++ t) = F.size s := by
  have hheader : F.header ≤ s.length := Nat.le_trans (Nat.le_add_right _ _) hs
  rw [size, size, List.take_append_of_le_length hheader]

theorem Ready.append (hs : F.Ready s) (t : List α) : F.Ready (s ++ t) := by
  show F.size (s ++ t) ≤ (s ++ t).length
  rw [size_append hs, List.length_append]
  exact Nat.le_trans hs (Nat.le_add_right _ _)

/-- What a ready stream starts with is a frame. -/
theorem Ready.isFrame (hs : F.Ready s) : F.IsFrame (s.take (F.size s)) := by
  have hheader : F.header ≤ F.size s := Nat.le_add_right _ _
  show F.header + F.body ((s.take (F.size s)).take F.header) = (s.take (F.size s)).length
  rw [List.take_take, Nat.min_eq_left hheader, List.length_take_of_le hs]
  rfl

/-! ## Cutting -/

theorem split_of_ready (hs : F.Ready s) :
    F.split s = (s.take (F.size s) :: (F.split (s.drop (F.size s))).1,
      (F.split (s.drop (F.size s))).2) := by
  rw [split, if_pos hs]

theorem split_of_not_ready (hs : ¬ F.Ready s) : F.split s = ([], s) := by
  rw [split, if_neg hs]

/-- A frame comes off as a whole. -/
theorem split_frame_append (hf : F.IsFrame f) (t : List α) :
    F.split (f ++ t) = (f :: (F.split t).1, (F.split t).2) := by
  have hready : F.Ready f := Nat.le_of_eq hf
  have hsize : F.size (f ++ t) = f.length := (size_append hready t).trans hf
  rw [split_of_ready (hready.append t), hsize, List.take_left' rfl, List.drop_left' rfl]

/-- The frames and the rest are the stream they were split from. -/
theorem split_flatten (s : List α) : (F.split s).1.flatten ++ (F.split s).2 = s := by
  induction s using split.induct F with
  | case1 s hs ih =>
      rw [split_of_ready hs, List.flatten_cons, List.append_assoc, ih, List.take_append_drop]
  | case2 s hs =>
      rw [split_of_not_ready hs]
      rfl

/-- What comes off is frames, and no frame is left. -/
theorem split_spec (s : List α) :
    (∀ f ∈ (F.split s).1, F.IsFrame f) ∧ ¬ F.Ready (F.split s).2 := by
  induction s using split.induct F with
  | case1 s hs ih =>
      rw [split_of_ready hs]
      refine ⟨fun f hf => ?_, ih.2⟩
      rcases List.mem_cons.mp hf with rfl | hf
      · exact hs.isFrame
      · exact ih.1 f hf
  | case2 s hs =>
      rw [split_of_not_ready hs]
      exact ⟨fun f hf => absurd hf List.not_mem_nil, hs⟩

/-- Frames come off one after the other. -/
theorem split_flatten_append (hfs : ∀ f ∈ fs, F.IsFrame f) (t : List α) :
    F.split (fs.flatten ++ t) = (fs ++ (F.split t).1, (F.split t).2) := by
  induction fs with
  | nil => rfl
  | cons f fs ih =>
      rw [List.flatten_cons, List.append_assoc,
        split_frame_append (hfs f (List.mem_cons_self ..)),
        ih fun g hg => hfs g (List.mem_cons_of_mem _ hg)]
      rfl

/-- There is one way to cut a stream. -/
theorem split_eq (hfs : ∀ f ∈ fs, F.IsFrame f) (ht : ¬ F.Ready t) :
    F.split (fs.flatten ++ t) = (fs, t) := by
  rw [split_flatten_append hfs, split_of_not_ready ht, List.append_nil]

theorem not_ready_nil : ¬ F.Ready ([] : List α) := Nat.not_le.mpr (F.size_pos [])

/-- A stream of frames is cut into these frames. -/
theorem split_of_frames (hfs : ∀ f ∈ fs, F.IsFrame f) : F.split fs.flatten = (fs, []) := by
  have h := split_eq hfs (not_ready_nil (F := F))
  rwa [List.append_nil] at h

/-- What has been cut stays cut when more arrives. -/
theorem split_append (s t : List α) :
    F.split (s ++ t) =
      ((F.split s).1 ++ (F.split ((F.split s).2 ++ t)).1, (F.split ((F.split s).2 ++ t)).2) := by
  have hs : s ++ t = (F.split s).1.flatten ++ ((F.split s).2 ++ t) := by
    rw [← List.append_assoc, split_flatten]
  conv_lhs => rw [hs]
  exact split_flatten_append (split_spec s).1 _

/-- The beginning of a stream of frames gives its first frames, and a part of the next. -/
theorem split_starts (hfs : ∀ f ∈ fs, F.IsFrame f) (hs : s <+: fs.flatten) :
    ∃ rest, fs = (F.split s).1 ++ rest ∧ (F.split s).2 <+: rest.flatten := by
  obtain ⟨t, ht⟩ := hs
  have hsplit := split_append (F := F) s t
  rw [ht, split_of_frames hfs] at hsplit
  refine ⟨(F.split ((F.split s).2 ++ t)).1, congrArg Prod.fst hsplit, t, ?_⟩
  have hrest := split_flatten (F := F) ((F.split s).2 ++ t)
  rw [← congrArg Prod.snd hsplit, List.append_nil] at hrest
  exact hrest.symm

/-! ## Pieces -/

/-- The pieces make no difference. -/
theorem feedAll_eq (pieces : List (List α)) : F.feedAll pieces = F.split pieces.flatten := by
  induction pieces using List.reverseRecOn with
  | nil => exact (split_of_not_ready not_ready_nil).symm
  | append_singleton pieces piece ih =>
      rw [feedAll, List.foldl_append, ← feedAll, ih, List.flatten_append, List.flatten_singleton,
        split_append]
      rfl

end Format

end LengthPrefix
