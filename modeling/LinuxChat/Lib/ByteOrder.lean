import Mathlib.Data.List.Induction
import Mathlib.Tactic.Ring

/-!
# Byte orders

A word of `n` bytes as its base-256 digits, most significant first (`toBytes`,
`ofBytes`), and the two orders in which a machine keeps these digits in
memory. The word that either kind of machine finds in memory is stored as the
bytes it was found in (`store_load`).
-/

namespace ByteOrder

/-! ## Digits -/

/-- The last `n` base-256 digits, most significant first. -/
def toBytes : Nat → Nat → List UInt8
  | 0, _ => []
  | n + 1, x => toBytes n (x / 256) ++ [UInt8.ofNat x]

/-- The number with these digits. -/
def ofBytes (l : List UInt8) : Nat := l.foldl (fun acc b => acc * 256 + b.toNat) 0

@[simp] theorem length_toBytes (n x : Nat) : (toBytes n x).length = n := by
  induction n generalizing x with
  | zero => rfl
  | succ n ih => simp [toBytes, ih]

@[simp] theorem ofBytes_nil : ofBytes [] = 0 := rfl

@[simp] theorem ofBytes_snoc (l : List UInt8) (b : UInt8) :
    ofBytes (l ++ [b]) = ofBytes l * 256 + b.toNat := by
  simp [ofBytes, List.foldl_append]

/-- The first digit, and the others. -/
theorem toBytes_succ (n x : Nat) :
    toBytes (n + 1) x = UInt8.ofNat (x / 256 ^ n) :: toBytes n x := by
  induction n generalizing x with
  | zero => simp [toBytes]
  | succ n ih =>
      rw [toBytes, ih, List.cons_append, Nat.div_div_eq_div_mul, ← pow_succ', toBytes]

/-- A number of at most `n` digits is the number of its digits. -/
theorem ofBytes_toBytes {n x : Nat} (h : x < 256 ^ n) : ofBytes (toBytes n x) = x := by
  induction n generalizing x with
  | zero => simp_all [toBytes]
  | succ n ih =>
      have hdiv : x / 256 < 256 ^ n := by
        rw [Nat.div_lt_iff_lt_mul (by decide), ← pow_succ]
        exact h
      rw [toBytes, ofBytes_snoc, ih hdiv, UInt8.toNat_ofNat']
      omega

/-- `n` digits are the digits of their number. -/
theorem toBytes_ofBytes (l : List UInt8) : toBytes l.length (ofBytes l) = l := by
  induction l using List.reverseRecOn with
  | nil => rfl
  | append_singleton l b ih =>
      have hb := b.toNat_lt
      have hdiv : (ofBytes l * 256 + b.toNat) / 256 = ofBytes l := by omega
      have hlast : UInt8.ofNat (ofBytes l * 256 + b.toNat) = b := by
        apply UInt8.toNat_inj.mp
        rw [UInt8.toNat_ofNat']
        omega
      rw [List.length_append, List.length_singleton, toBytes, ofBytes_snoc, hdiv, hlast, ih]

theorem ofBytes_lt (l : List UInt8) : ofBytes l < 256 ^ l.length := by
  induction l using List.reverseRecOn with
  | nil => decide
  | append_singleton l b ih =>
      have hb := b.toNat_lt
      rw [List.length_append, List.length_singleton, ofBytes_snoc, pow_succ]
      omega

/-- The number of digits in two parts. -/
theorem ofBytes_append (l l' : List UInt8) :
    ofBytes (l ++ l') = ofBytes l * 256 ^ l'.length + ofBytes l' := by
  induction l' using List.reverseRecOn with
  | nil => simp
  | append_singleton l' b ih =>
      rw [← List.append_assoc, ofBytes_snoc, ih, ofBytes_snoc, List.length_append,
        List.length_singleton, pow_succ]
      ring

/-- The digits of a number in two parts. -/
theorem toBytes_append {m n a b : Nat} (h : b < 256 ^ n) :
    toBytes (m + n) (a * 256 ^ n + b) = toBytes m a ++ toBytes n b := by
  induction n generalizing b with
  | zero =>
      rw [pow_zero, Nat.lt_one_iff] at h
      simp [toBytes, h]
  | succ n ih =>
      have hsplit : a * 256 ^ (n + 1) + b = a * 256 ^ n * 256 + b := by rw [pow_succ]; ring
      have hdiv : (a * 256 ^ (n + 1) + b) / 256 = a * 256 ^ n + b / 256 := by
        rw [hsplit]
        omega
      have hlast : UInt8.ofNat (a * 256 ^ (n + 1) + b) = UInt8.ofNat b := by
        apply UInt8.toNat_inj.mp
        rw [UInt8.toNat_ofNat', UInt8.toNat_ofNat', hsplit]
        omega
      rw [← Nat.add_assoc, toBytes, hdiv, hlast,
        ih (by rw [Nat.div_lt_iff_lt_mul (by decide), ← pow_succ]; exact h), toBytes,
        List.append_assoc]

/-! ## Memory -/

/-- The order in which a machine keeps the bytes of a word. -/
inductive Order
  | little
  | big
  deriving DecidableEq, Repr

namespace Order

/-- The memory bytes of a word of `n` bytes. -/
def store (o : Order) (n x : Nat) : List UInt8 :=
  match o with
  | .little => (toBytes n x).reverse
  | .big => toBytes n x

/-- The word in these memory bytes. -/
def load (o : Order) (mem : List UInt8) : Nat :=
  match o with
  | .little => ofBytes mem.reverse
  | .big => ofBytes mem

@[simp] theorem length_store (o : Order) (n x : Nat) : (o.store n x).length = n := by
  cases o <;> simp [store]

theorem load_lt (o : Order) (mem : List UInt8) : o.load mem < 256 ^ mem.length := by
  cases o with
  | little => simpa [load] using ofBytes_lt mem.reverse
  | big => exact ofBytes_lt mem

theorem load_store (o : Order) {n x : Nat} (h : x < 256 ^ n) : o.load (o.store n x) = x := by
  cases o with
  | little => rw [store, load, List.reverse_reverse, ofBytes_toBytes h]
  | big => exact ofBytes_toBytes h

theorem store_load (o : Order) (mem : List UInt8) : o.store mem.length (o.load mem) = mem := by
  cases o with
  | little =>
      have hbytes := toBytes_ofBytes mem.reverse
      rw [List.length_reverse] at hbytes
      rw [store, load, hbytes, List.reverse_reverse]
  | big => exact toBytes_ofBytes mem

end Order

end ByteOrder
