import Mathlib.Data.List.Basic

/-!
# Byte streams read in pieces

A stream socket hands out what was sent in pieces of its own choosing: a call
that asks for `want` bytes gets at least one and at most `want` of what is
left. `Transport.chunk` is that choice, by call number.

`Source` is what a reader sees of any such supply: a function from the bytes
asked for to the bytes got (`none` for an error) and the supply that is left.
-/

namespace ByteStream

/-- `recv` and `read`, over a supply `σ`. -/
abbrev Source (σ : Type*) := Nat → σ → Option (List UInt8) × σ

/-- Ask a supply for `want` bytes; a call never returns more. -/
def Source.ask {σ : Type*} (src : Source σ) (want : Nat) (s : σ) : Option (List UInt8) × σ :=
  let (r, s') := src want s
  (r.map (·.take want), s')

/-- The results of the calls to come, given in advance. -/
def scripted : Source (List (Option (List UInt8)))
  | _, [] => (none, [])
  | _, r :: rest => (r, rest)

/-- A connection: the bytes still to come and how they are split. -/
structure Transport where
  stream : List UInt8
  chunk : Nat → Nat
  calls : Nat := 0

namespace Transport

/-- The bytes the next call may take. -/
def grant (t : Transport) (want : Nat) : Nat := min want (max 1 (t.chunk t.calls))

/-- The bytes the next call returns when it asks for `want`. -/
def taken (t : Transport) (want : Nat) : List UInt8 := t.stream.take (t.grant want)

/-- The connection after that call. -/
def after (t : Transport) (want : Nat) : Transport :=
  { t with stream := t.stream.drop (t.grant want), calls := t.calls + 1 }

/-- A call that asks for `want` bytes. It returns nothing only at the end of the stream. -/
def recv : Source Transport := fun want t => (some (t.taken want), t.after want)

/-- A connection that always delivers what is asked for. -/
def whole (stream : List UInt8) : Transport := ⟨stream, fun _ => 0x10000, 0⟩

theorem grant_le (t : Transport) (want : Nat) : t.grant want ≤ want := Nat.min_le_left _ _

theorem grant_pos (t : Transport) {want : Nat} (h : 0 < want) : 0 < t.grant want := by
  unfold grant
  omega

theorem length_taken_le (t : Transport) (want : Nat) : (t.taken want).length ≤ want :=
  Nat.le_trans (List.length_take_le _ _) (t.grant_le want)

theorem ask_recv (t : Transport) (want : Nat) :
    Source.ask recv want t = (some (t.taken want), t.after want) := by
  simp [Source.ask, recv, List.take_of_length_le (t.length_taken_le want)]

@[simp] theorem chunk_after (t : Transport) (want : Nat) : (t.after want).chunk = t.chunk := rfl

@[simp] theorem calls_after (t : Transport) (want : Nat) :
    (t.after want).calls = t.calls + 1 := rfl

/-- No byte is lost or made up. -/
theorem taken_append (t : Transport) (want : Nat) :
    t.taken want ++ (t.after want).stream = t.stream := List.take_append_drop _ _

theorem length_taken_add (t : Transport) (want : Nat) :
    (t.taken want).length + (t.after want).stream.length = t.stream.length := by
  rw [← List.length_append, taken_append]

theorem taken_ne_nil {t : Transport} {want : Nat} (hwant : 0 < want) (h : t.stream ≠ []) :
    t.taken want ≠ [] := by
  have hpos := t.grant_pos hwant
  simp only [taken, ne_eq, List.take_eq_nil_iff, h, or_false]
  omega

/-- A call that may take what it asks for takes it, if it is there. -/
theorem taken_of_chunk {t : Transport} {data rest : List UInt8}
    (hchunk : data.length ≤ max 1 (t.chunk t.calls)) (hstream : t.stream = data ++ rest) :
    t.taken data.length = data ∧ (t.after data.length).stream = rest := by
  have hgrant : t.grant data.length = data.length := Nat.min_eq_left hchunk
  simp [taken, after, hgrant, hstream]

/-- A call that returns all it asks for was allowed to. -/
theorem chunk_of_length_taken {t : Transport} {want : Nat} (h : (t.taken want).length = want) :
    want ≤ max 1 (t.chunk t.calls) := by
  have hle : (t.taken want).length ≤ t.grant want := List.length_take_le _ _
  have := Nat.min_le_right want (max 1 (t.chunk t.calls))
  unfold grant at hle
  omega

end Transport

end ByteStream
