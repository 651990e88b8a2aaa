import LinuxChat.Model.ByteOrder
import LinuxChat.Model.Util

/-!
# Two implementations of the 64-bit conversions

`htonll` and `ntohll` of network.c swap halves, `hton64u` and `ntoh64u` of
util.c go byte by byte. On a machine of either byte order both pairs compute
the same, through the digits of their argument in memory (`toNat_ntoh64u`,
`store_hton64u`).
-/

namespace LinuxChat

open ByteOrder

/-! ## `ntoh64u` -/

theorem toNat_ntoh64uPass {acc : UInt64} {b : UInt8} (h : acc.toNat < 256 ^ 7) :
    (ntoh64uPass acc b).toNat = acc.toNat * 256 + b.toNat := by
  have hshift : (acc <<< 8).toNat = acc.toNat <<< 8 := by
    rw [UInt64.toNat_shiftLeft, Nat.shiftLeft_eq, Nat.shiftLeft_eq]
    have hfits : acc.toNat * 256 < 0x10000000000000000 := by
      simp only [Nat.reducePow] at h
      omega
    exact Nat.mod_eq_of_lt hfits
  rw [ntoh64uPass, UInt64.toNat_or, hshift, UInt8.toNat_toUInt64,
    ← Nat.shiftLeft_add_eq_or_of_lt b.toNat_lt, Nat.shiftLeft_eq]

/-- The passes over up to eight bytes gather their number. -/
theorem toNat_foldl_ntoh64uPass {l : List UInt8} (h : l.length ≤ 8) :
    (l.foldl ntoh64uPass 0).toNat = ofBytes l := by
  induction l using List.reverseRecOn with
  | nil => rfl
  | append_singleton l b ih =>
      rw [List.length_append, List.length_singleton] at h
      have hlt : (l.foldl ntoh64uPass 0).toNat < 256 ^ 7 := by
        rw [ih (by omega)]
        exact lt_of_lt_of_le (ofBytes_lt l) (Nat.pow_le_pow_right (by omega) (by omega))
      rw [List.foldl_append, List.foldl_cons, List.foldl_nil, toNat_ntoh64uPass hlt,
        ih (by omega), ofBytes_snoc]

/-- `ntoh64u` reads the number that is in memory in network order. -/
theorem toNat_ntoh64u (o : Order) (x : UInt64) :
    (ntoh64u o x).toNat = ofBytes (o.store 8 x.toNat) := by
  apply toNat_foldl_ntoh64uPass
  rw [Order.length_store]

/-! ## `hton64u` -/

/-- Mask and shift pick one digit. -/
theorem hton64uByte_eq (x : UInt64) {i : Nat} (hi : i < 8) :
    hton64uByte x i = UInt8.ofNat (x.toNat / 256 ^ i) := by
  have hofNat : (UInt64.ofNat (i * 8)).toNat = i * 8 := by
    rw [UInt64.toNat_ofNat']
    exact Nat.mod_eq_of_lt (by omega)
  have hmod : i * 8 % 64 = i * 8 := Nat.mod_eq_of_lt (by omega)
  have hmask : ((0xff : UInt64) <<< UInt64.ofNat (i * 8)).toNat = 0xff <<< (i * 8) := by
    rw [UInt64.toNat_shiftLeft, hofNat, hmod]
    apply Nat.mod_eq_of_lt
    rw [Nat.shiftLeft_eq]
    calc (0xff : UInt64).toNat * 2 ^ (i * 8) ≤ 255 * 2 ^ 56 :=
          Nat.mul_le_mul_left _ (Nat.pow_le_pow_right (by omega) (by omega))
      _ < 2 ^ 64 := by decide
  have hpow : 256 ^ i = 2 ^ (i * 8) := by rw [Nat.mul_comm, pow_mul]; rfl
  have hbyte := Nat.and_two_pow_sub_one_eq_mod (x.toNat / 2 ^ (i * 8)) 8
  simp only [Nat.reducePow, Nat.reduceSub] at hbyte
  apply UInt8.toNat_inj.mp
  rw [hton64uByte, UInt64.toNat_toUInt8, UInt64.toNat_shiftRight, UInt64.toNat_and, hmask, hofNat,
    hmod, Nat.shiftRight_and_distrib, Nat.shiftLeft_shiftRight, Nat.shiftRight_eq_div_pow,
    hbyte, UInt8.toNat_ofNat', hpow]
  exact Nat.mod_mod _ _

/-- After `k` passes the last `k` bytes are the last `k` digits. -/
theorem foldl_hton64uPass (x : UInt64) {k : Nat} (hk : k ≤ 8) :
    (List.range k).foldl (hton64uPass x) (8, List.replicate 8 0) =
      (8 - k, List.replicate (8 - k) 0 ++ toBytes k x.toNat) := by
  induction k with
  | zero => rfl
  | succ k ih =>
      have hsplit : 8 - k = (8 - (k + 1)) + 1 := by omega
      rw [List.range_succ, List.foldl_append, ih (by omega), List.foldl_cons, List.foldl_nil,
        hton64uPass, hton64uByte_eq x (by omega), toBytes_succ, Prod.mk.injEq]
      refine ⟨by omega, ?_⟩
      show (List.replicate (8 - k) 0 ++ toBytes k x.toNat).set (8 - k - 1) _ = _
      rw [hsplit, Nat.add_sub_cancel, List.replicate_succ', List.append_assoc,
        List.set_append_right _ _ (by simp), List.length_replicate, Nat.sub_self]
      rfl

/-- `hton64u` stores the number in network order. -/
theorem store_hton64u (o : Order) (x : UInt64) :
    o.store 8 (hton64u o x).toNat = toBytes 8 x.toNat := by
  have hlt := o.load_lt (toBytes 8 x.toNat)
  have hstore := o.store_load (toBytes 8 x.toNat)
  rw [length_toBytes] at hlt hstore
  have hword : (hton64u o x).toNat = o.load (toBytes 8 x.toNat) := by
    rw [hton64u, foldl_hton64uPass x (Nat.le_refl 8), UInt64.toNat_ofNat']
    exact Nat.mod_eq_of_lt hlt
  rw [hword, hstore]

/-! ## Both pairs -/

/-- A word is known by its memory. -/
theorem eq_of_store_eq {o : Order} {x y : UInt64}
    (h : o.store 8 x.toNat = o.store 8 y.toNat) : x = y := by
  have hload := congrArg o.load h
  rw [o.load_store x.toNat_lt, o.load_store y.toNat_lt] at hload
  exact UInt64.toNat_inj.mp hload

theorem hton64u_eq_htonll (o : Order) (x : UInt64) : hton64u o x = htonll o x := by
  apply eq_of_store_eq (o := o)
  rw [store_hton64u, store_htonll]

theorem ntoh64u_eq_ntohll (o : Order) (x : UInt64) : ntoh64u o x = ntohll o x := by
  apply UInt64.toNat_inj.mp
  rw [toNat_ntoh64u, toNat_ntohll]

theorem ntoh64u_of_store {o : Order} {x y : UInt64} (h : o.store 8 x.toNat = toBytes 8 y.toNat) :
    ntoh64u o x = y := by
  apply UInt64.toNat_inj.mp
  rw [toNat_ntoh64u, h, ofBytes_toBytes y.toNat_lt]

/-- **Both implementations compute the same, are inverse, and put the digits of the number into
memory, most significant first.** -/
theorem conversions_agree (o : Order) (x : UInt64) :
    htonll o x = hton64u o x ∧ ntohll o x = ntoh64u o x ∧
      ntohll o (htonll o x) = x ∧ ntoh64u o (hton64u o x) = x ∧
      o.store 8 (hton64u o x).toNat = toBytes 8 x.toNat := by
  have hinverse : ntoh64u o (hton64u o x) = x := ntoh64u_of_store (store_hton64u o x)
  refine ⟨(hton64u_eq_htonll o x).symm, (ntoh64u_eq_ntohll o x).symm, ?_, hinverse,
    store_hton64u o x⟩
  rw [← hton64u_eq_htonll, ← ntoh64u_eq_ntohll]
  exact hinverse

end LinuxChat
