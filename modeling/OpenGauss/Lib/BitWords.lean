import Mathlib.Tactic

/-! Sets of bits kept in words of 64 bits: setting and reading a bit, union, inclusion. -/

namespace OpenGauss.Lib

def setBit (words : List (BitVec 64)) (index : Nat) : List (BitVec 64) :=
  words.modify (index >>> 6) (· ||| 1#64 <<< (index % 64))

def getBit (words : List (BitVec 64)) (index : Nat) : Bool :=
  words.getD (index >>> 6) 0 &&& 1#64 <<< (index % 64) ≠ 0#64

def orWords (words others : List (BitVec 64)) : List (BitVec 64) :=
  List.zipWith (· ||| ·) words others

/-- Word by word; a word without bits is in any other one. -/
def wordsWithin : List (BitVec 64) → List (BitVec 64) → Bool
  | [], _ => true
  | word :: words, others =>
    if word = 0#64 then wordsWithin words others.tail
    else if word &&& others.headD 0 ≠ word then false
    else wordsWithin words others.tail

/-- The test by a mask of one bit, as programs make it. -/
theorem and_bit_ne_zero (word : BitVec 64) {bit : Nat} (small : bit < 64) :
    word &&& 1#64 <<< bit ≠ 0#64 ↔ word.getLsbD bit = true := by
  rw [not_iff_comm, BitVec.eq_of_getLsbD_eq_iff]
  constructor
  · intro clear other _
    rw [BitVec.getLsbD_and, BitVec.getLsbD_shiftLeft, BitVec.getLsbD_one, BitVec.getLsbD_zero]
    by_cases same : other = bit
    · subst same
      simp [Bool.eq_false_iff.mpr clear]
    · by_cases less : other < bit
      · simp [less]
      · have beyond : other - bit ≠ 0 := by omega
        simp [beyond]
  · intro absent
    have here := absent bit small
    rw [BitVec.getLsbD_and, BitVec.getLsbD_shiftLeft, BitVec.getLsbD_one, BitVec.getLsbD_zero] at here
    simpa [small] using here

variable (words : List (BitVec 64)) (index : Nat)

theorem getBit_eq :
    getBit words index = (words.getD (index / 64) 0).getLsbD (index % 64) := by
  have place : index >>> 6 = index / 64 := Nat.shiftRight_eq_div_pow index 6
  rw [getBit, place, Bool.eq_iff_iff, decide_eq_true_iff]
  exact and_bit_ne_zero _ (Nat.mod_lt _ (by decide))

@[simp] theorem length_setBit :
    (setBit words index).length = words.length :=
  List.length_modify ..

/-- A bit that is set is found, and no other one changes. -/
theorem getBit_setBit {words : List (BitVec 64)} {index : Nat} (inside : index < 64 * words.length)
    (other : Nat) : getBit (setBit words index) other = (getBit words other || other == index) := by
  have place : index >>> 6 = index / 64 := Nat.shiftRight_eq_div_pow index 6
  have known : index / 64 < words.length := by omega
  rw [getBit_eq, getBit_eq, setBit, place, List.getD_eq_getElem?_getD, List.getD_eq_getElem?_getD,
    List.getElem?_modify]
  by_cases word : index / 64 = other / 64
  · rw [← word, List.getElem?_eq_getElem known]
    simp only [if_true, Option.map_eq_map, Option.map_some, Option.getD_some, BitVec.getLsbD_or,
      BitVec.getLsbD_shiftLeft, BitVec.getLsbD_one]
    congr 1
    rw [Bool.eq_iff_iff]
    simp only [Bool.and_eq_true, Bool.not_eq_true', decide_eq_true_iff, decide_eq_false_iff_not, beq_iff_eq]
    omega
  · have apart : other ≠ index := by
      rintro rfl
      exact word rfl
    simp only [if_neg word, Option.map_eq_map, Option.map_id_fun', id_eq,
      beq_eq_false_iff_ne.mpr apart, Bool.or_false]

@[simp] theorem getBit_zeros (count index : Nat) : getBit (List.replicate count 0#64) index = false := by
  rw [getBit_eq, List.getD_eq_getElem?_getD, List.getElem?_replicate]
  split <;> simp

theorem getBit_orWords {words others : List (BitVec 64)} (same : words.length = others.length)
    (index : Nat) : getBit (orWords words others) index = (getBit words index || getBit others index) := by
  rw [getBit_eq, getBit_eq, getBit_eq, orWords]
  simp only [List.getD_eq_getElem?_getD, List.getElem?_zipWith]
  rcases Nat.lt_or_ge (index / 64) words.length with inside | outside
  · rw [List.getElem?_eq_getElem inside, List.getElem?_eq_getElem (same ▸ inside)]
    simp
  · rw [List.getElem?_eq_none outside, List.getElem?_eq_none (same ▸ outside)]
    simp

/-- The test by words passes where every bit of the first set is in the second. -/
theorem wordsWithin_of_bits {words others : List (BitVec 64)}
    (within : ∀ index, getBit words index = true → getBit others index = true) :
    wordsWithin words others = true := by
  induction words generalizing others with
  | nil => rfl
  | cons word words ih =>
    -- bit 64 and those behind it are the bits of the remaining words
    have later : wordsWithin words others.tail = true := by
      apply ih
      intro index set
      have next : (index + 64) / 64 = index / 64 + 1 := by omega
      have bit : (index + 64) % 64 = index % 64 := by omega
      have moved := within (index + 64)
      rw [getBit_eq, getBit_eq, next, bit, List.getD_cons_succ, ← getBit_eq] at moved
      have found := moved set
      rw [getBit_eq]
      cases others with
      | nil => exact found
      | cons first rest => exact found
    have first : word &&& others.headD 0 = word := by
      apply BitVec.eq_of_getLsbD_eq
      intro bit small
      rw [BitVec.getLsbD_and]
      by_cases set : word.getLsbD bit = true
      · have here := within bit
        rw [getBit_eq, getBit_eq, Nat.div_eq_of_lt small, Nat.mod_eq_of_lt small,
          List.getD_cons_zero] at here
        have found := here set
        cases others with
        | nil => simp at found
        | cons first rest => rw [set]; exact found
      · rw [Bool.eq_false_iff.mpr set, Bool.false_and]
    rw [wordsWithin, if_neg (not_not.mpr first), later, ite_self]

end OpenGauss.Lib
