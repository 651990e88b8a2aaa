import LinuxChat.Lib.ByteOrder
import LinuxChat.Model.Defines

/-!
# Host and network byte order

`htonl` and `ntohl` are the conversions of the platform, whose byte order is
a parameter. `htonll` and `ntohll` are those of network.c: they look at the
first byte of a test word to find out the byte order, and swap the two halves
on a little-endian machine.
-/

namespace LinuxChat

open ByteOrder

/-- `htonl`: the word whose memory bytes are the digits of `x`. -/
def htonl (o : Order) (x : UInt32) : UInt32 := UInt32.ofNat (o.load (toBytes 4 x.toNat))

/-- `ntohl`: the number whose digits are the memory bytes of `x`. -/
def ntohl (o : Order) (x : UInt32) : UInt32 := UInt32.ofNat (ofBytes (o.store 4 x.toNat))

/-- The first memory byte of the test word, as `test.c[0]` reads it. -/
def testByte (o : Order) : UInt8 := (o.store 8 0x0102030405060708).getD 0 0

/-- `htonll`. -/
def htonll (o : Order) (hostLonglong : UInt64) : UInt64 :=
  if testByte o = 0x01 then hostLonglong
  else
    ((htonl o (hostLonglong &&& 0xFFFFFFFF).toUInt32).toUInt64 <<< 32) |||
      (htonl o (hostLonglong >>> 32).toUInt32).toUInt64

/-- `ntohll`. -/
def ntohll (o : Order) (netLonglong : UInt64) : UInt64 :=
  if testByte o = 0x01 then netLonglong
  else
    ((ntohl o (netLonglong &&& 0xFFFFFFFF).toUInt32).toUInt64 <<< 32) |||
      (ntohl o (netLonglong >>> 32).toUInt32).toUInt64

theorem toNat_htonl (o : Order) (x : UInt32) : (htonl o x).toNat = o.load (toBytes 4 x.toNat) := by
  have hlt := o.load_lt (toBytes 4 x.toNat)
  rw [length_toBytes] at hlt
  rw [htonl, UInt32.toNat_ofNat']
  exact Nat.mod_eq_of_lt hlt

theorem toNat_ntohl (o : Order) (x : UInt32) :
    (ntohl o x).toNat = ofBytes (o.store 4 x.toNat) := by
  have hlt := ofBytes_lt (o.store 4 x.toNat)
  rw [Order.length_store] at hlt
  rw [ntohl, UInt32.toNat_ofNat']
  exact Nat.mod_eq_of_lt hlt

/-! ## Halves of a 64-bit word -/

theorem toNat_halves (hi lo : UInt32) :
    ((hi.toUInt64 <<< 32) ||| lo.toUInt64).toNat = hi.toNat * 0x100000000 + lo.toNat := by
  have hhi := hi.toNat_lt
  have hlo := lo.toNat_lt
  have hshift : (hi.toUInt64 <<< 32).toNat = hi.toNat * 0x100000000 := by
    rw [UInt64.toNat_shiftLeft, Nat.shiftLeft_eq, UInt32.toNat_toUInt64]
    exact Nat.mod_eq_of_lt (by simp only [UInt64.reduceToNat, Nat.reduceMod, Nat.reducePow]; omega)
  have hor := Nat.shiftLeft_add_eq_or_of_lt hlo hi.toNat
  rw [Nat.shiftLeft_eq] at hor
  rw [UInt64.toNat_or, hshift, UInt32.toNat_toUInt64]
  exact hor.symm

theorem toNat_lowHalf (x : UInt64) :
    (x &&& 0xFFFFFFFF).toUInt32.toNat = x.toNat % 0x100000000 := by
  have hmask := Nat.and_two_pow_sub_one_eq_mod x.toNat 32
  simp only [Nat.reducePow, Nat.reduceSub] at hmask
  simp only [UInt64.toNat_toUInt32, UInt64.toNat_and, UInt64.reduceToNat, Nat.reducePow, hmask]
  exact Nat.mod_mod _ _

theorem toNat_highHalf (x : UInt64) : (x >>> 32).toUInt32.toNat = x.toNat / 0x100000000 := by
  have hlt := x.toNat_lt
  simp only [UInt64.toNat_toUInt32, UInt64.toNat_shiftRight, UInt64.reduceToNat, Nat.reduceMod,
    Nat.shiftRight_eq_div_pow, Nat.reducePow] at hlt ⊢
  omega

/-- The digits of a 64-bit word are those of its halves. -/
theorem toBytes_halves (hi : Nat) {lo : Nat} (hlo : lo < 0x100000000) :
    toBytes 8 (hi * 0x100000000 + lo) = toBytes 4 hi ++ toBytes 4 lo :=
  toBytes_append (m := 4) (n := 4) hlo

theorem toBytes_eight (x : UInt64) : toBytes 8 x.toNat =
    toBytes 4 (x.toNat / 0x100000000) ++ toBytes 4 (x.toNat % 0x100000000) := by
  rw [← toBytes_halves _ (Nat.mod_lt _ (by omega)), Nat.div_add_mod']

/-! ## The 64-bit conversions -/

/-- `htonll` stores the number in network order, on either kind of machine. -/
theorem store_htonll (o : Order) (x : UInt64) :
    o.store 8 (htonll o x).toNat = toBytes 8 x.toNat := by
  cases o with
  | big => rfl
  | little =>
      have hswap : ∀ y, toBytes 4 (Order.little.load (toBytes 4 y)) = (toBytes 4 y).reverse := by
        intro y
        have hstore := toBytes_ofBytes (toBytes 4 y).reverse
        rwa [List.length_reverse, length_toBytes] at hstore
      have hlt : ∀ y, Order.little.load (toBytes 4 y) < 0x100000000 := by
        intro y
        have hload := Order.little.load_lt (toBytes 4 y)
        rwa [length_toBytes] at hload
      have htest : ¬ testByte .little = 0x01 := by decide
      rw [htonll, if_neg htest, toNat_halves, toNat_htonl, toNat_htonl, toNat_lowHalf,
        toNat_highHalf, Order.store, toBytes_halves _ (hlt _), hswap, hswap,
        List.reverse_append, List.reverse_reverse, List.reverse_reverse, toBytes_eight]

/-- `ntohll` reads the number that is in memory in network order. -/
theorem toNat_ntohll (o : Order) (x : UInt64) :
    (ntohll o x).toNat = ofBytes (o.store 8 x.toNat) := by
  cases o with
  | big => exact (ofBytes_toBytes x.toNat_lt).symm
  | little =>
      have hstore : Order.little.store 8 x.toNat =
          Order.little.store 4 (x.toNat % 0x100000000) ++
            Order.little.store 4 (x.toNat / 0x100000000) := by
        rw [Order.store, toBytes_eight, List.reverse_append, Order.store, Order.store]
      have htest : ¬ testByte .little = 0x01 := by decide
      rw [ntohll, if_neg htest, toNat_halves, toNat_ntohl, toNat_ntohl, toNat_lowHalf,
        toNat_highHalf, hstore, ofBytes_append, Order.length_store]
      rfl

theorem be64_eq (x : UInt64) : be64 x = toBytes 8 x.toNat := by
  simp only [be64, List.map_cons, List.map_nil, toBytes, List.nil_append, List.cons_append,
    List.cons.injEq, and_true]
  refine ⟨?_, ?_, ?_, ?_, ?_, ?_, ?_, ?_⟩ <;>
    apply UInt8.toNat_inj.mp <;>
    simp only [UInt64.toNat_toUInt8, UInt64.toNat_shiftRight, UInt64.reduceToNat, Nat.reduceMod,
      Nat.shiftRight_eq_div_pow, Nat.reducePow, UInt8.toNat_ofNat'] <;>
    omega

/-- The field the builders write is the memory of `htonll(timestamp)`, on either kind of
machine. -/
theorem be64_eq_store (o : Order) (x : UInt64) : be64 x = o.store 8 (htonll o x).toNat := by
  rw [store_htonll, be64_eq]

end LinuxChat
