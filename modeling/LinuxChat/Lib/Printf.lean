import Mathlib.Data.Nat.Digits.Defs
import LinuxChat.Lib.CMem

/-!
# Numbers as `printf` writes them

`numeral` is a number to some base, `padded` what `%d` with the flag `0` and
a width makes of an integer: the sign, and digits behind as many zeros as fill
the width. A negative number is no wider than its width says either.
-/

namespace Printf

/-- The digits of `n`, as characters. -/
def numeral (base n : Nat) : List UInt8 :=
  (Nat.toDigits base n).map fun c => UInt8.ofNat c.toNat

/-- Zeros up to the width. -/
def zeroFill (width : Nat) (digits : List UInt8) : List UInt8 :=
  List.replicate (width - digits.length) 48 ++ digits

/-- `%0<width>d`; `%d` for width 0. -/
def padded (width : Nat) (i : Int) : List UInt8 :=
  if i < 0 then 45 :: zeroFill (width - 1) (numeral 10 i.natAbs)
  else zeroFill width (numeral 10 i.natAbs)

/-! ## Characters -/

/-- A byte that is a digit or a sign. -/
def NumberByte (b : UInt8) : Prop := b = 45 ∨ 48 ≤ b.toNat ∧ b.toNat ≤ 57

instance (b : UInt8) : Decidable (NumberByte b) := inferInstanceAs (Decidable (_ ∨ _))

/-- Every digit is one of the base. -/
theorem exists_of_mem_toDigits {base n : Nat} (hbase : 1 < base) {c : Char}
    (hc : c ∈ Nat.toDigits base n) : ∃ d, d < base ∧ c = Nat.digitChar d := by
  induction n using Nat.strong_induction_on with
  | _ n ih =>
      rw [Nat.toDigits_eq_if hbase] at hc
      split at hc
      · rename_i hlt
        exact ⟨n, hlt, List.mem_singleton.mp hc⟩
      · rename_i hge
        rcases List.mem_append.mp hc with hc | hc
        · exact ih (n / base) (Nat.div_lt_self (by omega) hbase) hc
        · exact ⟨n % base, Nat.mod_lt _ (by omega), List.mem_singleton.mp hc⟩

theorem digitChar_ne_zero : ∀ d < 16, UInt8.ofNat (Nat.digitChar d).toNat ≠ 0 := by decide

theorem zero_notMem_numeral {base : Nat} (hbase : 1 < base) (hle : base ≤ 16) (n : Nat) :
    0 ∉ numeral base n := by
  intro h
  obtain ⟨c, hc, hzero⟩ := List.mem_map.mp h
  obtain ⟨d, hd, rfl⟩ := exists_of_mem_toDigits hbase hc
  exact digitChar_ne_zero d (by omega) hzero

theorem numberByte_of_mem_numeral {n : Nat} {b : UInt8} (h : b ∈ numeral 10 n) :
    NumberByte b := by
  obtain ⟨c, hc, rfl⟩ := List.mem_map.mp h
  obtain ⟨d, hd, rfl⟩ := exists_of_mem_toDigits (by decide) hc
  right
  rw [Nat.toNat_digitChar_of_lt_ten hd, UInt8.toNat_ofNat']
  simp only [Nat.reducePow]
  omega

theorem numberByte_of_mem_padded {width : Nat} {i : Int} {b : UInt8} (h : b ∈ padded width i) :
    NumberByte b := by
  have hfill : ∀ w, b ∈ zeroFill w (numeral 10 i.natAbs) → NumberByte b := by
    intro w hb
    rcases List.mem_append.mp hb with hb | hb
    · rw [List.eq_of_mem_replicate hb]
      exact Or.inr (by decide)
    · exact numberByte_of_mem_numeral hb
  unfold padded at h
  split at h
  · rcases List.mem_cons.mp h with rfl | hb
    · exact Or.inl rfl
    · exact hfill _ hb
  · exact hfill _ h

/-- What is no digit and no sign is not in a number. -/
theorem notMem_padded {b : UInt8} (h : ¬ NumberByte b) (width : Nat) (i : Int) :
    b ∉ padded width i := by
  intro hmem
  exact h (numberByte_of_mem_padded hmem)

theorem count_padded {b : UInt8} (h : ¬ NumberByte b) (width : Nat) (i : Int) :
    (padded width i).count b = 0 :=
  List.count_eq_zero.mpr (notMem_padded h width i)

/-! ## Widths -/

theorem length_numeral_le_iff {base n k : Nat} (hbase : 1 < base) (hk : 0 < k) :
    (numeral base n).length ≤ k ↔ n < base ^ k := by
  rw [numeral, List.length_map, Nat.length_toDigits_le_iff hbase hk]

@[simp] theorem length_zeroFill (width : Nat) (digits : List UInt8) :
    (zeroFill width digits).length = max width digits.length := by
  simp only [zeroFill, List.length_append, List.length_replicate]
  omega

theorem zeroFill_of_le {width : Nat} {digits : List UInt8} (h : width ≤ digits.length) :
    zeroFill width digits = digits := by
  rw [zeroFill, Nat.sub_eq_zero_of_le h, List.replicate_zero, List.nil_append]

theorem padded_natCast (width n : Nat) : padded width n = zeroFill width (numeral 10 n) := by
  have hpos : ¬ (n : Int) < 0 := by omega
  rw [padded, if_neg hpos, Int.natAbs_natCast]

/-- A number that fits its width has exactly that width. -/
theorem length_padded_natCast {width n : Nat} (hwidth : 0 < width) (h : n < 10 ^ width) :
    (padded width n).length = width := by
  have hle : (numeral 10 n).length ≤ width := (length_numeral_le_iff (by decide) hwidth).mpr h
  rw [padded_natCast, length_zeroFill]
  exact max_eq_left hle

theorem length_padded_le {width width' n : Nat} (h : width ≤ width') :
    (padded width n).length ≤ (padded width' n).length := by
  rw [padded_natCast, padded_natCast, length_zeroFill, length_zeroFill]
  omega

/-- A width does nothing if the width before it is already too small. -/
theorem padded_succ_eq_of_length {width n : Nat}
    (h : (padded (width + 1) n).length = (padded width n).length) :
    padded (width + 1) n = padded width n := by
  rw [padded_natCast, padded_natCast, length_zeroFill, length_zeroFill] at h
  rw [padded_natCast, padded_natCast, zeroFill_of_le (by omega), zeroFill_of_le (by omega)]

/-- One place more is seen exactly at the numbers that fit the smaller width. -/
theorem padded_succ_eq_iff {width n : Nat} (hwidth : 0 < width) :
    padded (width + 1) n = padded width n ↔ 10 ^ width ≤ n := by
  have hfits : (numeral 10 n).length ≤ width ↔ n < 10 ^ width :=
    length_numeral_le_iff (by decide) hwidth
  constructor
  · intro heq
    have hlen := congrArg List.length heq
    rw [padded_natCast, padded_natCast, length_zeroFill, length_zeroFill] at hlen
    by_contra hlt
    rw [not_le, ← hfits] at hlt
    omega
  · intro hwide
    have hlong : ¬ (numeral 10 n).length ≤ width := by
      rw [hfits]
      omega
    apply padded_succ_eq_of_length
    rw [padded_natCast, padded_natCast, length_zeroFill, length_zeroFill]
    omega

end Printf
