import Mathlib.Order.Bounds.Basic
import LinuxChat.Logic.LoginNames
import LinuxChat.Model.Util

/-!
# Two checks of a name

`f_Name_has_forbidden_char` compares signed characters and counts with a
`u16`, `nameBytesValidate` compares unsigned bytes and returns an index. Both
stop at the first byte that no name may hold (`NameByte`): the one returns the
length of the longest prefix without such a byte (`nameBytesValidate_isGreatest`),
the other whether there is one (`fNameHasForbiddenChar_eq_false`).
-/

namespace LinuxChat

open CMem

/-- A printable character that is no blank and no quote. -/
def NameByte (b : UInt8) : Prop :=
  33 ≤ b.toNat ∧ b.toNat ≤ 126 ∧ b ≠ 34 ∧ b ≠ 39 ∧ b ≠ 96

instance (b : UInt8) : Decidable (NameByte b) := inferInstanceAs (Decidable (_ ∧ _))

/-! ## `nameBytesValidate` -/

/-- The lengths of the prefixes of the first `n` bytes that hold name bytes only. -/
def cleanPrefixes (s : List UInt8) (n : Nat) : Set Nat := {k | k ≤ n ∧ ∀ b ∈ s.take k, NameByte b}

/-- The three comparisons find the bytes that are no name bytes. -/
theorem nameByte_iff {c : UInt8} :
    NameByte c ↔ ¬ c < 33 ∧ ¬ (c = 34 ∨ c = 39 ∨ c = 96) ∧ ¬ 127 ≤ c := by
  rw [UInt8.lt_iff_toNat_lt, UInt8.le_iff_toNat_le]
  simp only [NameByte, UInt8.reduceToNat, not_or, ne_eq, not_lt, not_le]
  constructor
  · rintro ⟨hlow, hhigh, hquotes⟩
    exact ⟨hlow, hquotes, by omega⟩
  · rintro ⟨hlow, hquotes, hhigh⟩
    exact ⟨hlow, by omega, hquotes⟩

/-- What the loop has passed is clean; at a byte that is not, nothing longer is. -/
theorem isGreatest_of_not_nameByte {s : List UInt8} {n i : Nat} {c : UInt8} (hi : i < n)
    (hclean : ∀ b ∈ s.take i, NameByte b) (hc : s[i]? = some c) (hbad : ¬ NameByte c) :
    IsGreatest (cleanPrefixes s n) i := by
  refine ⟨⟨by omega, hclean⟩, ?_⟩
  intro k hk
  by_contra hlong
  rw [not_le] at hlong
  apply hbad
  apply hk.2
  exact List.mem_of_getElem? (i := i) (by rw [List.getElem?_take_of_lt hlong, hc])

theorem nameBytesValidateFrom_isGreatest {s : List UInt8} {n i : Nat} (hn : n ≤ s.length)
    (hi : i ≤ n) (hclean : ∀ b ∈ s.take i, NameByte b) :
    ∃ k, nameBytesValidateFrom s n i = some k ∧ IsGreatest (cleanPrefixes s n) k := by
  induction hsteps : n - i generalizing i with
  | zero =>
      have hend : i = n := by omega
      subst hend
      rw [nameBytesValidateFrom, if_neg (Nat.lt_irrefl i)]
      exact ⟨i, rfl, ⟨Nat.le_refl i, hclean⟩, fun k hk => hk.1⟩
  | succ steps ih =>
      have hlt : i < n := by omega
      have hc : s[i]? = some s[i] := List.getElem?_eq_getElem (by omega)
      rw [nameBytesValidateFrom, if_pos hlt, hc]
      show ∃ k, (if s[i] < 33 then some i else if s[i] = 34 ∨ s[i] = 39 ∨ s[i] = 96 then some i
        else if 127 ≤ s[i] then some i else nameBytesValidateFrom s n (i + 1)) = some k ∧ _
      by_cases hname : NameByte s[i]
      · obtain ⟨h1, h2, h3⟩ := nameByte_iff.mp hname
        rw [if_neg h1, if_neg h2, if_neg h3]
        apply ih (by omega) _ (by omega)
        intro b hb
        rw [List.take_add_one, hc, Option.toList_some] at hb
        rcases List.mem_append.mp hb with hb | hb
        · exact hclean b hb
        · rw [List.mem_singleton.mp hb]
          exact hname
      · have hstop := isGreatest_of_not_nameByte hlt hclean hc hname
        rw [nameByte_iff] at hname
        refine ⟨i, ?_, hstop⟩
        split_ifs with h1 h2 h3
        · rfl
        · rfl
        · rfl
        · exact absurd ⟨h1, h2, h3⟩ hname

theorem nameBytesValidate_isGreatest {s : List UInt8} {n : Nat} (hn : n ≤ s.length) :
    ∃ k, nameBytesValidate s n = some k ∧ IsGreatest (cleanPrefixes s n) k :=
  nameBytesValidateFrom_isGreatest hn (Nat.zero_le n) (by simp)

/-- All bytes pass when the count is reached. -/
theorem nameBytesValidate_eq_iff {s : List UInt8} {n : Nat} (hn : n ≤ s.length) :
    nameBytesValidate s n = some n ↔ ∀ b ∈ s.take n, NameByte b := by
  obtain ⟨k, hk, hgreatest⟩ := nameBytesValidate_isGreatest hn
  rw [hk, Option.some_inj]
  constructor
  · intro heq
    rw [← heq]
    exact hgreatest.1.2
  · intro hall
    exact Nat.le_antisymm hgreatest.1.1 (hgreatest.2 ⟨Nat.le_refl n, hall⟩)

/-! ## `f_Name_has_forbidden_char` -/

theorem nameHasForbiddenCharFrom_eq {name : List UInt8} {len x : UInt16}
    (hlen : len.toNat ≤ name.length) (hx : x ≤ len) :
    nameHasForbiddenCharFrom name len x =
      ((name.take len.toNat).drop x.toNat).any forbiddenChar := by
  induction hsteps : len.toNat - x.toNat generalizing x with
  | zero =>
      rw [UInt16.le_iff_toNat_le] at hx
      have hend : ¬ x < len := by rw [UInt16.lt_iff_toNat_lt]; omega
      rw [nameHasForbiddenCharFrom, if_neg hend, List.drop_eq_nil_of_le (by simp; omega)]
      rfl
  | succ steps ih =>
      have hlt : x.toNat < len.toNat := by omega
      have hnext : (x + 1).toNat = x.toNat + 1 := by
        have hlim := len.toNat_lt
        rw [UInt16.toNat_add]
        exact Nat.mod_eq_of_lt (by simp only [UInt16.reduceToNat, Nat.reducePow] at *; omega)
      have hstep := ih (x := x + 1) (by rw [UInt16.le_iff_toNat_le, hnext]; exact hlt)
        (by rw [hnext]; omega)
      have hcons : (name.take len.toNat).drop x.toNat =
          name.getD x.toNat 0 :: (name.take len.toNat).drop (x.toNat + 1) := by
        rw [List.drop_eq_getElem_cons (by simp; omega), List.getElem_take,
          List.getD_eq_getElem?_getD, List.getElem?_eq_getElem (by omega), Option.getD_some]
      rw [nameHasForbiddenCharFrom, if_pos (UInt16.lt_iff_toNat_lt.mpr hlt), hstep, hnext, hcons,
        List.any_cons]
      cases forbiddenChar (name.getD x.toNat 0) <;> rfl

/-- The loop is the search through the first `strlen` bytes. -/
theorem fNameHasForbiddenChar_eq (name : List UInt8) :
    fNameHasForbiddenChar name = nameHasForbiddenChar name := by
  have hcount : (UInt16.ofNat (cstr name).length).toNat = toU16 (cstr name).length := by
    rw [UInt16.toNat_ofNat', toU16]
    omega
  have hle : toU16 (cstr name).length ≤ (cstr name).length := by
    unfold toU16
    omega
  have htake : name.take (toU16 (cstr name).length) =
      (cstr name).take (toU16 (cstr name).length) := by
    rw [List.prefix_iff_eq_take.mp (cstr_starts name), List.take_take, List.length_take,
      Nat.min_eq_left (length_cstr_le name), Nat.min_eq_left hle]
  rw [fNameHasForbiddenChar, nameHasForbiddenCharFrom_eq
    (by rw [hcount]; exact hle.trans (length_cstr_le name)) (UInt16.zero_le), hcount, htake]
  rfl

theorem fNameHasForbiddenChar_eq_false {name : List UInt8} (hlen : (cstr name).length < 65536) :
    fNameHasForbiddenChar name = false ↔ ∀ b ∈ cstr name, NameByte b := by
  rw [fNameHasForbiddenChar_eq, nameHasForbiddenChar_of_lt hlen, List.any_eq_false]
  apply forall₂_congr
  intro b _
  rw [Bool.not_eq_true, forbiddenChar_eq_false, NameByte]

/-- **On a terminated string of less than 65536 bytes the two checks agree, and the index one of
them returns is the length of the longest prefix of name bytes.** -/
theorem name_checks_agree (name s : List UInt8) (n : Nat) :
    (0 ∈ name → (cstr name).length < 65536 →
      (fNameHasForbiddenChar name = false ↔
        nameBytesValidate name (cstr name).length = some (cstr name).length)) ∧
    (n ≤ s.length →
      ∃ k, nameBytesValidate s n = some k ∧ IsGreatest (cleanPrefixes s n) k) := by
  refine ⟨?_, nameBytesValidate_isGreatest⟩
  intro _ hlen
  have hprefix : name.take (cstr name).length = cstr name :=
    (List.prefix_iff_eq_take.mp (cstr_starts name)).symm
  rw [fNameHasForbiddenChar_eq_false hlen, nameBytesValidate_eq_iff (length_cstr_le name), hprefix]

/-- A good name, and a name with a blank in it. -/
theorem name_checks_agree_anna :
    (fNameHasForbiddenChar (lit "anna" ++ [0]) = false ↔
      nameBytesValidate (lit "anna" ++ [0]) (cstr (lit "anna" ++ [0])).length =
        some (cstr (lit "anna" ++ [0])).length) ∧
    ∃ k, nameBytesValidate (lit "an na") 5 = some k ∧
      IsGreatest (cleanPrefixes (lit "an na") 5) k :=
  have h := name_checks_agree (lit "anna" ++ [0]) (lit "an na") 5
  ⟨h.1 (by decide) (by decide), h.2 (by decide)⟩

end LinuxChat
