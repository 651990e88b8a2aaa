import Mathlib.Data.List.Basic

/-!
# Formats with tags

A format is a list of symbols in which an escape symbol and the symbol behind
it are a tag. `expand` replaces each tag by its text, in one pass from left to
right: what a tag brings is not read again, and a tag may change the state in
which the tags behind it are read. An escape symbol in last place stands for
itself, and one in front of a symbol that is no tag letter for nothing.

* `expand_append` — a format in two parts, if the first does not end inside a
  tag;
* `expand_congr` — only the texts of the tags reached matter;
* `measure_text_eq` — two expansions of equal size whose texts are ordered by
  size have texts of equal size, tag by tag.
-/

/-- The escape symbol, and the letters that are tags. -/
structure Markup (α τ : Type*) where
  esc : α
  tag : α → Option τ

namespace Markup

variable {α τ σ : Type*} [DecidableEq α] (M : Markup α τ)

/-- The tags of a format, from left to right. -/
def tags : List α → List τ
  | [] => []
  | [_] => []
  | a :: b :: rest =>
      if a = M.esc then
        match M.tag b with
        | none => tags rest
        | some t => t :: tags rest
      else tags (b :: rest)

/-- A format without an escape symbol left over at its end. -/
def closed : List α → Bool
  | [] => true
  | [a] => a ≠ M.esc
  | a :: b :: rest => if a = M.esc then closed rest else closed (b :: rest)

/-- The state behind these tags. -/
def after (next : σ → τ → σ) (s : σ) (fmt : List α) : σ := (M.tags fmt).foldl next s

/-- The tags in place of which a text is put, each with the state it is read in. -/
def pieces (next : σ → τ → σ) : σ → List τ → List (σ × τ)
  | _, [] => []
  | s, t :: ts => (s, t) :: pieces next (next s t) ts

/-- The format with its tags replaced. -/
def expand (text : σ → τ → List α) (next : σ → τ → σ) : σ → List α → List α
  | _, [] => []
  | _, [a] => [a]
  | s, a :: b :: rest =>
      if a = M.esc then
        match M.tag b with
        | none => expand text next s rest
        | some t => text s t ++ expand text next (next s t) rest
      else a :: expand text next s (b :: rest)

variable {M} {text text' : σ → τ → List α} {next : σ → τ → σ}

/-! ## One step -/

@[simp] theorem tags_nil : M.tags [] = [] := rfl

@[simp] theorem tags_singleton (a : α) : M.tags [a] = [] := rfl

@[simp] theorem expand_nil (s : σ) : M.expand text next s [] = [] := rfl

@[simp] theorem expand_singleton (s : σ) (a : α) : M.expand text next s [a] = [a] := rfl

theorem expand_cons_of_ne {a : α} (ha : a ≠ M.esc) (s : σ) (fmt : List α) :
    M.expand text next s (a :: fmt) = a :: M.expand text next s fmt := by
  cases fmt with
  | nil => rfl
  | cons b rest => rw [expand, if_neg ha]

theorem expand_esc_of_none {b : α} (hb : M.tag b = none) (s : σ) (rest : List α) :
    M.expand text next s (M.esc :: b :: rest) = M.expand text next s rest := by
  rw [expand, if_pos rfl, hb]

theorem expand_esc_of_some {b : α} {t : τ} (hb : M.tag b = some t) (s : σ) (rest : List α) :
    M.expand text next s (M.esc :: b :: rest) =
      text s t ++ M.expand text next (next s t) rest := by
  rw [expand, if_pos rfl, hb]

theorem tags_cons_of_ne {a : α} (ha : a ≠ M.esc) (fmt : List α) :
    M.tags (a :: fmt) = M.tags fmt := by
  cases fmt with
  | nil => rfl
  | cons b rest => rw [tags, if_neg ha]

theorem tags_esc_of_none {b : α} (hb : M.tag b = none) (rest : List α) :
    M.tags (M.esc :: b :: rest) = M.tags rest := by
  rw [tags, if_pos rfl, hb]

theorem tags_esc_of_some {b : α} {t : τ} (hb : M.tag b = some t) (rest : List α) :
    M.tags (M.esc :: b :: rest) = t :: M.tags rest := by
  rw [tags, if_pos rfl, hb]

theorem closed_cons_of_ne {a : α} (ha : a ≠ M.esc) (fmt : List α) :
    M.closed (a :: fmt) = M.closed fmt := by
  cases fmt with
  | nil => simp [closed, ha]
  | cons b rest => rw [closed, if_neg ha]

@[simp] theorem closed_esc (b : α) (rest : List α) :
    M.closed (M.esc :: b :: rest) = M.closed rest := by
  rw [closed, if_pos rfl]

/-- Induction over a format: a symbol that stands for itself, an escape symbol in last place,
one that brings nothing, a tag. -/
theorem format_induction {motive : List α → Prop} (nil : motive []) (last : motive [M.esc])
    (char : ∀ a fmt, a ≠ M.esc → motive fmt → motive (a :: fmt))
    (other : ∀ b rest, M.tag b = none → motive rest → motive (M.esc :: b :: rest))
    (tag : ∀ b t rest, M.tag b = some t → motive rest → motive (M.esc :: b :: rest)) :
    ∀ fmt, motive fmt
  | [] => nil
  | [a] =>
      if ha : a = M.esc then ha ▸ last
      else char a [] ha nil
  | a :: b :: rest =>
      if ha : a = M.esc then
        match hb : M.tag b with
        | none => ha ▸ other b rest hb (format_induction nil last char other tag rest)
        | some t => ha ▸ tag b t rest hb (format_induction nil last char other tag rest)
      else char a (b :: rest) ha (format_induction nil last char other tag (b :: rest))

/-! ## Two parts -/

/-- The second part is expanded in the state the first one leaves. -/
theorem expand_append {f : List α} (hf : M.closed f = true) (s : σ) (g : List α) :
    M.expand text next s (f ++ g) =
      M.expand text next s f ++ M.expand text next (M.after next s f) g := by
  induction f using format_induction (M := M) generalizing s with
  | nil => rfl
  | last => simp [closed] at hf
  | char a fmt ha ih =>
      rw [closed_cons_of_ne ha] at hf
      rw [List.cons_append, expand_cons_of_ne ha, expand_cons_of_ne ha, ih hf, after, after,
        tags_cons_of_ne ha, List.cons_append]
  | other b rest hb ih =>
      rw [closed_esc] at hf
      rw [List.cons_append, List.cons_append, expand_esc_of_none hb, expand_esc_of_none hb, ih hf,
        after, after, tags_esc_of_none hb]
  | tag b t rest hb ih =>
      rw [closed_esc] at hf
      rw [List.cons_append, List.cons_append, expand_esc_of_some hb, expand_esc_of_some hb, ih hf,
        after, after, tags_esc_of_some hb, List.foldl_cons, List.append_assoc]

/-! ## The tags that are reached -/

/-- A piece is a tag of the format, read behind the tags before it. -/
theorem mem_pieces {s s' : σ} {t : τ} {ts : List τ} :
    (s', t) ∈ pieces next s ts ↔ ∃ before behind, ts = before ++ t :: behind ∧
      s' = before.foldl next s := by
  induction ts generalizing s with
  | nil => simp [pieces]
  | cons u ts ih =>
      rw [pieces, List.mem_cons, ih]
      constructor
      · rintro (heq | ⟨before, behind, rfl, rfl⟩)
        · obtain ⟨rfl, rfl⟩ := Prod.mk.inj heq
          exact ⟨[], ts, rfl, rfl⟩
        · exact ⟨u :: before, behind, rfl, rfl⟩
      · rintro ⟨before, behind, hts, rfl⟩
        cases before with
        | nil =>
            obtain ⟨rfl, rfl⟩ := List.cons.inj hts
            exact Or.inl rfl
        | cons v before =>
            obtain ⟨rfl, rfl⟩ := List.cons.inj hts
            exact Or.inr ⟨before, behind, rfl, rfl⟩

theorem expand_congr {s : σ} {fmt : List α}
    (h : ∀ p ∈ pieces next s (M.tags fmt), text p.1 p.2 = text' p.1 p.2) :
    M.expand text next s fmt = M.expand text' next s fmt := by
  induction fmt using format_induction (M := M) generalizing s with
  | nil => rfl
  | last => rfl
  | char a fmt ha ih =>
      rw [tags_cons_of_ne ha] at h
      rw [expand_cons_of_ne ha, expand_cons_of_ne ha, ih h]
  | other b rest hb ih =>
      rw [tags_esc_of_none hb] at h
      rw [expand_esc_of_none hb, expand_esc_of_none hb, ih h]
  | tag b t rest hb ih =>
      rw [tags_esc_of_some hb, pieces, List.forall_mem_cons] at h
      rw [expand_esc_of_some hb, expand_esc_of_some hb, h.1, ih h.2]

/-! ## Sizes -/

/-- The symbols that stand for themselves. -/
def plain (M : Markup α τ) : List α → Nat
  | [] => 0
  | [_] => 1
  | a :: b :: rest => if a = M.esc then plain M rest else plain M (b :: rest) + 1

theorem plain_cons_of_ne {a : α} (ha : a ≠ M.esc) (fmt : List α) :
    M.plain (a :: fmt) = M.plain fmt + 1 := by
  cases fmt with
  | nil => rfl
  | cons b rest => rw [plain, if_neg ha]

@[simp] theorem plain_esc (b : α) (rest : List α) :
    M.plain (M.esc :: b :: rest) = M.plain rest := by
  rw [plain, if_pos rfl]

/-- The texts of these tags, taken together. -/
def textLength (text : σ → τ → List α) (next : σ → τ → σ) : σ → List τ → Nat
  | _, [] => 0
  | s, t :: ts => (text s t).length + textLength text next (next s t) ts

/-- The length of an expansion, from the lengths of its texts. -/
theorem length_expand (s : σ) (fmt : List α) :
    (M.expand text next s fmt).length =
      M.plain fmt + textLength text next s (M.tags fmt) := by
  induction fmt using format_induction (M := M) generalizing s with
  | nil => rfl
  | last => rfl
  | char a fmt ha ih =>
      rw [expand_cons_of_ne ha, tags_cons_of_ne ha, plain_cons_of_ne ha, List.length_cons, ih]
      omega
  | other b rest hb ih =>
      rw [expand_esc_of_none hb, tags_esc_of_none hb, plain_esc, ih]
  | tag b t rest hb ih =>
      rw [expand_esc_of_some hb, tags_esc_of_some hb, plain_esc, List.length_append, ih,
        textLength]
      omega

section Measure

variable {μ : List α → Nat}

theorem measure_expand_le (hμ : ∀ l l', μ (l ++ l') = μ l + μ l') {s : σ} {fmt : List α}
    (h : ∀ p ∈ pieces next s (M.tags fmt), μ (text p.1 p.2) ≤ μ (text' p.1 p.2)) :
    μ (M.expand text next s fmt) ≤ μ (M.expand text' next s fmt) := by
  induction fmt using format_induction (M := M) generalizing s with
  | nil => exact Nat.le_refl _
  | last => exact Nat.le_refl _
  | char a fmt ha ih =>
      rw [tags_cons_of_ne ha] at h
      have hcons : ∀ l, μ (a :: l) = μ [a] + μ l := fun l => hμ [a] l
      rw [expand_cons_of_ne ha, expand_cons_of_ne ha, hcons (M.expand text next s fmt),
        hcons (M.expand text' next s fmt)]
      exact Nat.add_le_add_left (ih h) _
  | other b rest hb ih =>
      rw [tags_esc_of_none hb] at h
      rw [expand_esc_of_none hb, expand_esc_of_none hb]
      exact ih h
  | tag b t rest hb ih =>
      rw [tags_esc_of_some hb, pieces, List.forall_mem_cons] at h
      rw [expand_esc_of_some hb, expand_esc_of_some hb, hμ, hμ]
      exact Nat.add_le_add h.1 (ih h.2)

/-- Where no text is larger in the first reading than in the second, the sizes of the two
expansions agree only if those of all texts do. -/
theorem measure_text_eq (hμ : ∀ l l', μ (l ++ l') = μ l + μ l') {s : σ} {fmt : List α}
    (h : ∀ p ∈ pieces next s (M.tags fmt), μ (text p.1 p.2) ≤ μ (text' p.1 p.2))
    (heq : μ (M.expand text next s fmt) = μ (M.expand text' next s fmt)) :
    ∀ p ∈ pieces next s (M.tags fmt), μ (text p.1 p.2) = μ (text' p.1 p.2) := by
  induction fmt using format_induction (M := M) generalizing s with
  | nil => intro p hp; exact absurd hp List.not_mem_nil
  | last => intro p hp; exact absurd hp List.not_mem_nil
  | char a fmt ha ih =>
      rw [tags_cons_of_ne ha] at h ⊢
      have hcons : ∀ l, μ (a :: l) = μ [a] + μ l := fun l => hμ [a] l
      rw [expand_cons_of_ne ha, expand_cons_of_ne ha, hcons (M.expand text next s fmt),
        hcons (M.expand text' next s fmt)] at heq
      exact ih h (Nat.add_left_cancel heq)
  | other b rest hb ih =>
      rw [tags_esc_of_none hb] at h ⊢
      rw [expand_esc_of_none hb, expand_esc_of_none hb] at heq
      exact ih h heq
  | tag b t rest hb ih =>
      rw [tags_esc_of_some hb, pieces, List.forall_mem_cons] at h ⊢
      rw [expand_esc_of_some hb, expand_esc_of_some hb, hμ, hμ] at heq
      have hrest := measure_expand_le hμ h.2
      have hfirst : μ (text s t) ≤ μ (text' s t) := h.1
      have hall : μ (M.expand text next (next s t) rest) =
          μ (M.expand text' next (next s t) rest) := by omega
      refine ⟨?_, ih h.2 hall⟩
      show μ (text s t) = μ (text' s t)
      omega

end Measure

end Markup
