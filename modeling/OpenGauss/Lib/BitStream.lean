import Mathlib.Tactic

/-! Numbers as bits, most significant bit first, and bytes as the bits in them. -/

namespace OpenGauss.Lib

/-- The `count` low bits of a number. -/
def bits : Nat → Nat → List Bool
  | 0, _ => []
  | count + 1, value => value.testBit count :: bits count value

def bitsNat : List Bool → Nat
  | [] => 0
  | bit :: rest => bit.toNat * 2 ^ rest.length + bitsNat rest

@[simp] theorem bits_zero (value : Nat) : bits 0 value = [] := rfl

@[simp] theorem length_bits (count value : Nat) : (bits count value).length = count := by
  induction count with
  | zero => rfl
  | succ count ih => rw [bits, List.length_cons, ih]

theorem bitsNat_bits_mod (count value : Nat) : bitsNat (bits count value) = value % 2 ^ count := by
  induction count with
  | zero => rw [Nat.pow_zero, Nat.mod_one]; rfl
  | succ count ih =>
    rw [bits, bitsNat, ih, length_bits, Nat.toNat_testBit, Nat.pow_succ, Nat.mod_mul, Nat.mul_comm,
      Nat.add_comm]

theorem bitsNat_bits {count value : Nat} (fits : value < 2 ^ count) :
    bitsNat (bits count value) = value := by
  rw [bitsNat_bits_mod, Nat.mod_eq_of_lt fits]

theorem bits_congr {count value other : Nat}
    (same : ∀ index < count, value.testBit index = other.testBit index) :
    bits count value = bits count other := by
  induction count with
  | zero => rfl
  | succ count ih =>
    rw [bits, bits, same count (Nat.lt_succ_self count),
      ih fun index small => same index (Nat.lt_succ_of_lt small)]

/-- What lies above the bits does not count. -/
theorem bits_mod {count wide : Nat} (value : Nat) (inside : count ≤ wide) :
    bits count (value % 2 ^ wide) = bits count value := by
  apply bits_congr
  intro index small
  rw [Nat.testBit_mod_two_pow, decide_eq_true (by omega), Bool.true_and]

/-- The high bits, then the low ones. -/
theorem bits_append (high low value : Nat) :
    bits (high + low) value = bits high (value >>> low) ++ bits low value := by
  induction high with
  | zero => rw [Nat.zero_add, bits_zero, List.nil_append]
  | succ high ih => rw [Nat.succ_add, bits, bits, ih, Nat.testBit_shiftRight, List.cons_append,
      Nat.add_comm low]

theorem bits_join {high low front back : Nat} (fits : back < 2 ^ low) :
    bits high front ++ bits low back = bits (high + low) (front * 2 ^ low + back) := by
  have above : (front * 2 ^ low + back) >>> low = front := by
    rw [Nat.shiftRight_eq_div_pow, Nat.mul_comm, Nat.mul_add_div (Nat.two_pow_pos low),
      Nat.div_eq_of_lt fits, Nat.add_zero]
  have below : (front * 2 ^ low + back) % 2 ^ low = back := by
    rw [Nat.mul_comm, Nat.mul_add_mod, Nat.mod_eq_of_lt fits]
  rw [bits_append, above, ← bits_mod (front * 2 ^ low + back) le_rfl, below]

def byteBits (bytes : List UInt8) : List Bool := bytes.flatMap fun byte => bits 8 byte.toNat

@[simp] theorem byteBits_nil : byteBits [] = [] := rfl

@[simp] theorem byteBits_cons (byte : UInt8) (bytes : List UInt8) :
    byteBits (byte :: bytes) = bits 8 byte.toNat ++ byteBits bytes := rfl

@[simp] theorem byteBits_append (front back : List UInt8) :
    byteBits (front ++ back) = byteBits front ++ byteBits back := List.flatMap_append

@[simp] theorem length_byteBits (bytes : List UInt8) : (byteBits bytes).length = 8 * bytes.length := by
  induction bytes with
  | nil => rfl
  | cons byte bytes ih =>
    rw [byteBits_cons, List.length_append, length_bits, ih, List.length_cons]
    omega

/-- The bit of a byte that comes after the first `index`. -/
theorem drop_bits {byte : Nat} {index : Nat} (inside : index < 8) :
    (bits 8 byte).drop index = byte.testBit (7 - index) :: (bits 8 byte).drop (index + 1) := by
  interval_cases index <;> rfl

end OpenGauss.Lib
