import Mathlib.Data.List.TakeWhile
import Mathlib.Data.List.TakeDrop

/-!
# NUL-terminated strings and byte arrays

A C string is read from the memory at its address up to the first NUL; an
array is a list of bytes of a fixed length. `Buf.write` keeps the bytes that
lie inside the array and drops the others: whether an access stays inside is
a separate question, asked by `fits`.

* `cstr` — what `strlen`, `strcmp` and `%s` see at an address;
* `strncpy` — the bytes `strncpy` stores, NUL padding included;
* `Buf` — arrays, with the lemmas that move `drop` and `cstr` over a write.
-/

namespace CMem

/-! ## C strings -/

/-- The C string that starts a memory region. -/
def cstr (mem : List UInt8) : List UInt8 := mem.takeWhile (· != 0)

/-- The `n` bytes `strncpy(_, src, n)` stores. -/
def strncpy (src : List UInt8) (n : Nat) : List UInt8 :=
  cstr (src.take n) ++ List.replicate (n - (cstr (src.take n)).length) 0

@[simp] theorem cstr_nil : cstr [] = [] := rfl

theorem cstr_cons_zero (l : List UInt8) : cstr (0 :: l) = [] := rfl

theorem cstr_cons_of_ne {b : UInt8} (h : b ≠ 0) (l : List UInt8) :
    cstr (b :: l) = b :: cstr l := by
  simp [cstr, h]

theorem cstr_starts (mem : List UInt8) : cstr mem <+: mem := List.takeWhile_prefix _

theorem length_cstr_le (mem : List UInt8) : (cstr mem).length ≤ mem.length :=
  (cstr_starts mem).length_le

/-- A C string holds no NUL. -/
theorem zero_notMem_cstr (mem : List UInt8) : 0 ∉ cstr mem := by
  intro h
  have := List.mem_takeWhile_imp h
  simp at this

theorem cstr_eq_self {mem : List UInt8} (h : 0 ∉ mem) : cstr mem = mem := by
  refine List.takeWhile_eq_self_iff.mpr fun b hb => ?_
  simpa using fun hz : b = 0 => h (hz ▸ hb)

@[simp] theorem cstr_cstr (mem : List UInt8) : cstr (cstr mem) = cstr mem :=
  cstr_eq_self (zero_notMem_cstr mem)

/-- Nothing behind the terminator is read. -/
theorem cstr_append_of_mem {a : List UInt8} (h : 0 ∈ a) (b : List UInt8) :
    cstr (a ++ b) = cstr a := by
  induction a with
  | nil => exact absurd h List.not_mem_nil
  | cons x a ih =>
      by_cases hx : x = 0
      · subst hx; rfl
      · rw [List.cons_append, cstr_cons_of_ne hx, cstr_cons_of_ne hx,
          ih ((List.mem_cons.mp h).resolve_left (Ne.symm hx))]

/-- An unterminated region runs on into the bytes behind it. -/
theorem cstr_append_of_notMem {a : List UInt8} (h : 0 ∉ a) (b : List UInt8) :
    cstr (a ++ b) = a ++ cstr b := by
  refine List.takeWhile_append_of_pos fun x hx => ?_
  simpa using fun hz : x = 0 => h (hz ▸ hx)

theorem cstr_append_replicate_zero (a : List UInt8) (n : Nat) :
    cstr (a ++ List.replicate n 0) = cstr a := by
  by_cases h : 0 ∈ a
  · exact cstr_append_of_mem h _
  · rw [cstr_append_of_notMem h, cstr_eq_self h]
    cases n <;> simp [List.replicate_succ, cstr_cons_zero]

@[simp] theorem cstr_replicate_zero (n : Nat) : cstr (List.replicate n 0) = [] := by
  simpa using cstr_append_replicate_zero [] n

theorem cstr_take (mem : List UInt8) (n : Nat) : cstr (mem.take n) = (cstr mem).take n :=
  List.take_takeWhile.symm

/-- A region that is longer than its C string has its terminator right behind it. -/
theorem eq_cstr_append {mem : List UInt8} (h : 0 ∈ mem) :
    ∃ rest, mem = cstr mem ++ 0 :: rest := by
  induction mem with
  | nil => exact absurd h List.not_mem_nil
  | cons x mem ih =>
      by_cases hx : x = 0
      · exact ⟨mem, by simp [hx, cstr_cons_zero]⟩
      · obtain ⟨rest, hrest⟩ := ih ((List.mem_cons.mp h).resolve_left (Ne.symm hx))
        refine ⟨rest, ?_⟩
        rw [cstr_cons_of_ne hx, List.cons_append, ← hrest]

theorem length_cstr_lt {mem : List UInt8} (h : 0 ∈ mem) : (cstr mem).length < mem.length := by
  obtain ⟨rest, hrest⟩ := eq_cstr_append h
  have := congrArg List.length hrest
  simp only [List.length_append, List.length_cons] at this
  omega

theorem zero_mem_of_length_cstr_lt {mem : List UInt8} (h : (cstr mem).length < mem.length) :
    0 ∈ mem := by
  by_contra hno
  rw [cstr_eq_self hno] at h
  exact Nat.lt_irrefl _ h

/-! ## `strncpy` -/

@[simp] theorem length_strncpy (src : List UInt8) (n : Nat) : (strncpy src n).length = n := by
  have := length_cstr_le (src.take n)
  simp only [List.length_take] at this
  simp only [strncpy, List.length_append, List.length_replicate]
  omega

@[simp] theorem cstr_strncpy (src : List UInt8) (n : Nat) :
    cstr (strncpy src n) = cstr (src.take n) := by
  rw [strncpy, cstr_append_replicate_zero, cstr_cstr]

/-- A copy is terminated exactly when the source ends before the count. -/
theorem zero_mem_strncpy {src : List UInt8} {n : Nat} :
    0 ∈ strncpy src n ↔ (cstr (src.take n)).length < n := by
  constructor
  · intro h
    have := length_cstr_lt h
    simpa using this
  · intro h
    exact zero_mem_of_length_cstr_lt (by simpa using h)

/-- A source without a NUL among the first `n` bytes is copied as it is. -/
theorem strncpy_of_notMem {src : List UInt8} {n : Nat} (hlen : n ≤ src.length)
    (h : 0 ∉ src.take n) : strncpy src n = src.take n := by
  have hn : (src.take n).length = n := List.length_take_of_le hlen
  rw [strncpy, cstr_eq_self h, hn, Nat.sub_self, List.replicate_zero, List.append_nil]

/-- A string argument: its bytes up to the terminator. -/
@[ext] structure CString where
  bytes : List UInt8
  nulFree : 0 ∉ bytes

/-- The empty string. -/
def CString.empty : CString := ⟨[], List.not_mem_nil⟩

/-! ## Copies without a terminator -/

/-- What a string copied over another one without its terminator leaves to read. -/
def overlay (old new : List UInt8) : List UInt8 := new ++ old.drop new.length

@[simp] theorem length_overlay (old new : List UInt8) :
    (overlay old new).length = max old.length new.length := by
  simp only [overlay, List.length_append, List.length_drop]
  omega

theorem zero_notMem_overlay {old new : List UInt8} (hold : 0 ∉ old) (hnew : 0 ∉ new) :
    0 ∉ overlay old new := by
  intro h
  rcases List.mem_append.mp h with h | h
  · exact hnew h
  · exact hold (List.mem_of_mem_drop h)

/-- Only a string that is not shorter covers the old one. -/
theorem overlay_eq_iff {old new : List UInt8} :
    overlay old new = new ↔ old.length ≤ new.length := by
  constructor
  · intro h
    have hlen := congrArg List.length h
    rw [length_overlay] at hlen
    omega
  · intro h
    rw [overlay, List.drop_eq_nil_of_le h, List.append_nil]

/-! ## Arrays -/

/-- An access of `len` bytes at offset `off` stays inside `size` bytes. -/
def fits (off len size : Nat) : Bool := off + len ≤ size

@[simp] theorem fits_iff {off len size : Nat} : fits off len size = true ↔ off + len ≤ size :=
  decide_eq_true_iff

/-- An array of `size` bytes. -/
structure Buf (size : Nat) where
  bytes : List UInt8
  length_bytes : bytes.length = size
  deriving DecidableEq

namespace Buf

variable {size : Nat}

attribute [simp] length_bytes

@[ext] theorem ext {a b : Buf size} (h : a.bytes = b.bytes) : a = b := by
  cases a; cases b; cases h; rfl

/-- `memset(_, 0, size)`. -/
def zero (size : Nat) : Buf size := ⟨List.replicate size 0, by simp⟩

/-- Store `data` at `off`; the part of it behind the end of the array is lost. -/
def write (b : Buf size) (off : Nat) (data : List UInt8) : Buf size where
  bytes := b.bytes.take off ++ data.take (size - off) ++ b.bytes.drop (off + data.length)
  length_bytes := by simp; omega

/-- `len` bytes from `off` on. -/
def slice (b : Buf size) (off len : Nat) : List UInt8 := (b.bytes.drop off).take len

@[simp] theorem bytes_zero : (zero size).bytes = List.replicate size 0 := rfl

theorem bytes_write {b : Buf size} {off : Nat} {data : List UInt8} (h : off + data.length ≤ size) :
    (b.write off data).bytes = b.bytes.take off ++ (data ++ b.bytes.drop (off + data.length)) := by
  simp only [write, List.append_assoc]
  rw [List.take_of_length_le (l := data) (by omega)]

/-- A write at the front that may be too long. -/
theorem bytes_write_front (b : Buf size) (data : List UInt8) :
    (b.write 0 data).bytes = (data ++ b.bytes.drop data.length).take size := by
  have hrest : (b.bytes.drop data.length).length ≤ size - data.length := by simp
  show b.bytes.take 0 ++ data.take (size - 0) ++ b.bytes.drop (0 + data.length) = _
  rw [List.take_append, List.take_of_length_le hrest, List.take_zero, List.nil_append,
    Nat.sub_zero, Nat.zero_add]

/-- From its own offset on, a write shows its data first. -/
theorem drop_write {b : Buf size} {off : Nat} {data : List UInt8} (h : off + data.length ≤ size) :
    (b.write off data).bytes.drop off = data ++ b.bytes.drop (off + data.length) := by
  rw [bytes_write h, List.drop_left' (by simp; omega)]

/-- A write leaves the bytes behind it alone. -/
theorem drop_write_of_le {b : Buf size} {off k : Nat} {data : List UInt8}
    (h : off + data.length ≤ k) (hk : k ≤ size) :
    (b.write off data).bytes.drop k = b.bytes.drop k := by
  obtain ⟨d, rfl⟩ := Nat.exists_eq_add_of_le h
  rw [← List.drop_drop, ← List.drop_drop, drop_write (by omega), List.drop_left' rfl,
    List.drop_drop]

/-- A write leaves the bytes before it alone. -/
theorem take_write_of_le {b : Buf size} {off k : Nat} {data : List UInt8} (h : k ≤ off)
    (hoff : off ≤ size) : (b.write off data).bytes.take k = b.bytes.take k := by
  simp only [write, List.append_assoc]
  rw [List.take_append_of_le_length (by simp; omega), List.take_take, Nat.min_eq_left h]

theorem slice_write {b : Buf size} {off : Nat} {data : List UInt8}
    (h : off + data.length ≤ size) : (b.write off data).slice off data.length = data := by
  rw [slice, drop_write h, List.take_left' rfl]

/-- A slice that starts with a write and ends in it. -/
theorem slice_write_take {b : Buf size} {off len : Nat} {data : List UInt8}
    (h : off + data.length ≤ size) (hlen : len ≤ data.length) :
    (b.write off data).slice off len = data.take len := by
  rw [slice, drop_write h, List.take_append_of_le_length hlen]

/-- The bytes before `off + len`, in two pieces. -/
theorem take_add (b : Buf size) (off len : Nat) :
    b.bytes.take (off + len) = b.bytes.take off ++ b.slice off len := List.take_add

theorem slice_write_of_le {b : Buf size} {off k len : Nat} {data : List UInt8}
    (h : k + len ≤ off) (hoff : off ≤ size) : (b.write off data).slice k len = b.slice k len := by
  rw [slice, slice, List.take_drop, List.take_drop, take_write_of_le h hoff]

theorem slice_write_of_ge {b : Buf size} {off k len : Nat} {data : List UInt8}
    (h : off + data.length ≤ k) (hk : k ≤ size) :
    (b.write off data).slice k len = b.slice k len := by
  rw [slice, slice, drop_write_of_le h hk]

/-- A slice that starts with a write shows its data and what lay behind it. -/
theorem slice_write_append {b : Buf size} {off len : Nat} {data : List UInt8}
    (h : data.length ≤ len) (hlen : off + len ≤ size) :
    (b.write off data).slice off len =
      data ++ b.slice (off + data.length) (len - data.length) := by
  rw [slice, drop_write (by omega), List.take_append, List.take_of_length_le h, slice]

theorem slice_zero {k len : Nat} (h : k + len ≤ size) :
    (zero size).slice k len = List.replicate len 0 := by
  rw [slice, bytes_zero, List.drop_replicate, List.take_replicate, Nat.min_eq_left (by omega)]

/-- Inside a cleared part, a slice is zero. -/
theorem slice_clear {b : Buf size} {n k len : Nat} (h : k + len ≤ n) (hn : n ≤ size) :
    (b.write 0 (List.replicate n 0)).slice k len = List.replicate len 0 := by
  rw [slice, bytes_write (by simpa using hn), List.take_zero, List.nil_append,
    List.drop_append_of_le_length (by simp; omega), List.drop_replicate,
    List.take_append_of_le_length (by simp; omega), List.take_replicate]
  congr 1
  omega

/-- The array holds this C string, and zeros behind it. -/
def Holds (b : Buf size) (s : List UInt8) : Prop :=
  0 ∉ s ∧ ∃ n, b.bytes = s ++ List.replicate n 0

theorem holds_zero : (zero size).Holds [] := ⟨List.not_mem_nil, size, rfl⟩

theorem Holds.cstr {b : Buf size} {s : List UInt8} (h : b.Holds s) : CMem.cstr b.bytes = s := by
  obtain ⟨hs, n, hbytes⟩ := h
  rw [hbytes, cstr_append_replicate_zero, cstr_eq_self hs]

/-- A copy of all of a string but its terminator. -/
theorem Holds.write {b : Buf size} {old new : List UInt8} (h : b.Holds old) (hnew : 0 ∉ new)
    (hlen : new.length ≤ size) : (b.write 0 new).Holds (overlay old new) := by
  obtain ⟨hold, n, hbytes⟩ := h
  refine ⟨zero_notMem_overlay hold hnew, n - (new.length - old.length), ?_⟩
  rw [bytes_write (by omega), hbytes, Nat.zero_add, List.take_zero, List.nil_append,
    List.drop_append, List.drop_replicate, overlay, List.append_assoc]

/-! ### Strings in arrays -/

/-- The array holds this C string, terminated. -/
def Reads (b : Buf size) (s : List UInt8) : Prop := 0 ∉ s ∧ ∃ rest, b.bytes = s ++ 0 :: rest

theorem Reads.cstr {b : Buf size} {s : List UInt8} (h : b.Reads s) : CMem.cstr b.bytes = s := by
  obtain ⟨hs, rest, hbytes⟩ := h
  rw [hbytes, cstr_append_of_notMem hs, cstr_cons_zero, List.append_nil]

/-- The terminator takes a byte of the array. -/
theorem Reads.length_lt {b : Buf size} {s : List UInt8} (h : b.Reads s) : s.length < size := by
  obtain ⟨-, rest, hbytes⟩ := h
  have hlen := congrArg List.length hbytes
  rw [b.length_bytes, List.length_append, List.length_cons] at hlen
  omega

theorem reads_zero (h : 0 < size) : (zero size).Reads [] := by
  refine ⟨List.not_mem_nil, List.replicate (size - 1) 0, ?_⟩
  rw [bytes_zero, List.nil_append, ← List.replicate_succ, Nat.sub_add_cancel h]

/-- Store a string and its terminator at `off`; `none` if they do not fit. -/
def putString (b : Buf size) (off : Nat) (s : List UInt8) : Option (Buf size) :=
  if fits off (s.length + 1) size then some (b.write off (s ++ [0])) else none

/-- `sprintf(b, ...)`, of this text. -/
def sprintf (b : Buf size) (s : List UInt8) : Option (Buf size) := b.putString 0 s

/-- `strcat(b, src)`. -/
def strcat (b : Buf size) (src : List UInt8) : Option (Buf size) :=
  b.putString (CMem.cstr b.bytes).length (CMem.cstr src)

/-- `strncat(b, src, n)`. -/
def strncat (b : Buf size) (src : List UInt8) (n : Nat) : Option (Buf size) :=
  b.putString (CMem.cstr b.bytes).length ((CMem.cstr src).take n)

theorem putString_eq_none {b : Buf size} {off : Nat} {s : List UInt8}
    (h : size ≤ off + s.length) : b.putString off s = none := by
  have hno : ¬ fits off (s.length + 1) size = true := by rw [fits_iff]; omega
  rw [putString, if_neg hno]

/-- A string put behind the `off` bytes `s`. -/
theorem putString_reads {b : Buf size} {off : Nat} {s t rest : List UInt8}
    (hbytes : b.bytes = s ++ rest) (hoff : s.length = off) (hs : 0 ∉ s) (ht : 0 ∉ t)
    (hfit : off + t.length < size) : ∃ b', b.putString off t = some b' ∧ b'.Reads (s ++ t) := by
  refine ⟨b.write off (t ++ [0]), ?_, ?_, b.bytes.drop (off + (t ++ [0]).length), ?_⟩
  · exact if_pos (fits_iff.mpr (by omega))
  · rw [List.mem_append]
    exact not_or.mpr ⟨hs, ht⟩
  · rw [bytes_write (by simp; omega), hbytes, List.take_left' hoff]
    simp only [List.append_assoc, List.singleton_append]

theorem sprintf_reads {t : List UInt8} (b : Buf size) (ht : 0 ∉ t) (hfit : t.length < size) :
    ∃ b', b.sprintf t = some b' ∧ b'.Reads t := by
  have hfit' : 0 + t.length < size := by omega
  exact putString_reads (s := []) rfl rfl List.not_mem_nil ht hfit'

theorem sprintf_eq_none {t : List UInt8} (b : Buf size) (h : size ≤ t.length) :
    b.sprintf t = none :=
  putString_eq_none (by omega)

namespace Reads

variable {b : Buf size} {s : List UInt8} {src t : List UInt8}

theorem strcat (h : b.Reads s) (hsrc : CMem.cstr src = t) (hfit : s.length + t.length < size) :
    ∃ b', b.strcat src = some b' ∧ b'.Reads (s ++ t) := by
  obtain ⟨rest, hbytes⟩ := h.2
  rw [Buf.strcat, h.cstr, hsrc]
  exact putString_reads hbytes rfl h.1 (hsrc ▸ zero_notMem_cstr src) hfit

theorem strcat_eq_none (h : b.Reads s) (hsrc : CMem.cstr src = t)
    (hfull : size ≤ s.length + t.length) : b.strcat src = none := by
  rw [Buf.strcat, h.cstr, hsrc]
  exact putString_eq_none hfull

/-- `strncat` of one character appends it. -/
theorem strncat_one {c : UInt8} (h : b.Reads s) (hc : c ≠ 0) (hfit : s.length + 1 < size) :
    ∃ b', b.strncat (c :: src) 1 = some b' ∧ b'.Reads (s ++ [c]) := by
  obtain ⟨rest, hbytes⟩ := h.2
  have hone : (CMem.cstr (c :: src)).take 1 = [c] := by rw [cstr_cons_of_ne hc]; rfl
  rw [Buf.strncat, h.cstr, hone]
  refine putString_reads hbytes rfl h.1 ?_ hfit
  rw [List.mem_singleton]
  exact Ne.symm hc

theorem strncat_one_eq_none {c : UInt8} (h : b.Reads s) (hc : c ≠ 0)
    (hfull : size ≤ s.length + 1) : b.strncat (c :: src) 1 = none := by
  have hone : (CMem.cstr (c :: src)).take 1 = [c] := by rw [cstr_cons_of_ne hc]; rfl
  rw [Buf.strncat, h.cstr, hone]
  exact putString_eq_none hfull

end Reads

end Buf

end CMem
