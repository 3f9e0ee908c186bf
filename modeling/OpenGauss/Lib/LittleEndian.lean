import Mathlib.Tactic

/-! Numbers as bytes, least significant byte first. -/

namespace OpenGauss.Lib

def leBytes : Nat → Nat → List UInt8
  | 0, _ => []
  | width + 1, value => UInt8.ofNat value :: leBytes width (value / 256)

def leNat : List UInt8 → Nat
  | [] => 0
  | byte :: rest => byte.toNat + 256 * leNat rest

variable (bytes : List UInt8) (width value : Nat)

@[simp] theorem length_leBytes : (leBytes width value).length = width := by
  induction width generalizing value with
  | zero => rfl
  | succ width ih => simp [leBytes, ih]

theorem leNat_leBytes {width value : Nat} (fits : value < 256 ^ width) :
    leNat (leBytes width value) = value := by
  induction width generalizing value with
  | zero => simpa [leBytes, leNat] using (Nat.lt_one_iff.mp fits).symm
  | succ width ih =>
    have smaller : value / 256 < 256 ^ width := by
      rw [Nat.div_lt_iff_lt_mul (by decide), ← Nat.pow_succ]
      exact fits
    simp only [leBytes, leNat, ih smaller, UInt8.toNat_ofNat']
    omega

@[simp] theorem leNat_uint64 (value : UInt64) : leNat (leBytes 8 value.toNat) = value.toNat :=
  leNat_leBytes (value.toNat_lt.trans_eq (by decide))

@[simp] theorem leNat_uint32 (value : UInt32) : leNat (leBytes 4 value.toNat) = value.toNat :=
  leNat_leBytes (value.toNat_lt.trans_eq (by decide))

@[simp] theorem leNat_uint16 (value : UInt16) : leNat (leBytes 2 value.toNat) = value.toNat :=
  leNat_leBytes (value.toNat_lt.trans_eq (by decide))

@[simp] theorem take_leBytes : (leBytes width value).take width = leBytes width value :=
  List.take_of_length_le (by rw [length_leBytes])

@[simp] theorem drop_leBytes {width count : Nat} (value : Nat) (past : width ≤ count) :
    (leBytes width value).drop count = [] :=
  List.drop_eq_nil_of_le (by rwa [length_leBytes])

theorem leNat_lt : leNat bytes < 256 ^ bytes.length := by
  induction bytes with
  | nil => decide
  | cons byte rest ih =>
    have small := byte.toNat_lt
    rw [leNat, List.length_cons, Nat.pow_succ]
    omega

theorem leBytes_leNat : leBytes bytes.length (leNat bytes) = bytes := by
  induction bytes with
  | nil => rfl
  | cons byte rest ih =>
    have small := byte.toNat_lt
    have high : (byte.toNat + 256 * leNat rest) / 256 = leNat rest := by omega
    rw [leNat, List.length_cons, leBytes, high, ih]
    congr 1
    apply UInt8.toNat_inj.mp
    rw [UInt8.toNat_ofNat']
    omega

/-- Numbers written one after the other, `width` bytes each. -/
def leWords (width : Nat) (values : List Nat) : List UInt8 := values.flatMap (leBytes width)

@[simp] theorem leWords_nil (width : Nat) : leWords width [] = [] := rfl

@[simp] theorem leWords_cons (values : List Nat) :
    leWords width (value :: values) = leBytes width value ++ leWords width values := rfl

@[simp] theorem leWords_append (width : Nat) (front back : List Nat) :
    leWords width (front ++ back) = leWords width front ++ leWords width back :=
  List.flatMap_append

@[simp] theorem length_leWords (width : Nat) (values : List Nat) :
    (leWords width values).length = values.length * width := by
  induction values with
  | nil => simp
  | cons value values ih => rw [leWords_cons, List.length_append, ih, length_leBytes,
      List.length_cons, Nat.succ_mul, Nat.add_comm]

/-- Bytes of a whole number of words are the words of some numbers. -/
theorem exists_leWords {width count : Nat} {bytes : List UInt8} (whole : bytes.length = count * width) :
    ∃ values, values.length = count ∧ (∀ value ∈ values, value < 256 ^ width) ∧
      leWords width values = bytes := by
  induction count generalizing bytes with
  | zero => exact ⟨[], rfl, by simp, (List.eq_nil_of_length_eq_zero (by omega)).symm⟩
  | succ count ih =>
    rw [Nat.succ_mul] at whole
    have first : (bytes.take width).length = width := by
      rw [List.length_take]
      omega
    obtain ⟨values, length, small, written⟩ := @ih (bytes.drop width) (by
      rw [List.length_drop]
      omega)
    refine ⟨leNat (bytes.take width) :: values, congrArg (· + 1) length, ?_, ?_⟩
    · have bound := leNat_lt (bytes.take width)
      rw [first] at bound
      exact List.forall_mem_cons.mpr ⟨bound, small⟩
    · have front := leBytes_leNat (bytes.take width)
      rw [first] at front
      rw [leWords_cons, front, written, List.take_append_drop]

/-- Reading `count` numbers of one width. -/
def readWords (width : Nat) : Nat → List UInt8 → List Nat
  | 0, _ => []
  | count + 1, bytes => leNat (bytes.take width) :: readWords width count (bytes.drop width)

theorem readWords_leWords {width : Nat} {values : List Nat}
    (fits : ∀ value ∈ values, value < 256 ^ width) (rest : List UInt8) :
    readWords width values.length (leWords width values ++ rest) = values := by
  induction values with
  | nil => rfl
  | cons value values ih =>
    obtain ⟨first, others⟩ := List.forall_mem_cons.mp fits
    have length := length_leBytes width value
    rw [leWords_cons, List.append_assoc, List.length_cons, readWords, List.take_left' length,
      List.drop_left' length, leNat_leBytes first, ih others]

end OpenGauss.Lib
