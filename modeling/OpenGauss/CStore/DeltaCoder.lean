import Mathlib.Data.Int.ModEq
import OpenGauss.CStore.RleCoder

/-! Delta coding, `DeltaCoder` of `compress_kits.cpp`. An `int64` is an integer; where it is
stored, its bits are the integer modulo `2 ^ 64`. -/

namespace OpenGauss.CStore

open Lib

/-- A width that the coders switch on. -/
abbrev ValSize := {size : Nat // 0 < size ∧ size ≤ 8}

def writeInt64 (datasize : Nat) (data : Int) : List UInt8 :=
  writeData datasize (data % 2 ^ 64).toNat

def deltaMasks : List Nat :=
  [0x00000000000000FF, 0x000000000000FF00, 0x0000000000FF0000, 0x00000000FF000000,
    0x000000FF00000000, 0x0000FF0000000000, 0x00FF000000000000, 0xFF00000000000000]

/-- The loop that goes down from byte `i` past the bytes that are zero. -/
def topByte (diff : Nat) : Nat → Nat
  | 0 => 0
  | i + 1 => if diff &&& deltaMasks.getD (i + 1) 0 = 0 then topByte diff i else i + 1

theorem topByte_le (diff i : Nat) : topByte diff i ≤ i := by
  induction i with
  | zero => exact le_rfl
  | succ i ih =>
    unfold topByte
    split
    · exact ih.trans (Nat.le_succ i)
    · exact le_rfl

def deltaGetBytesNum (mindata maxdata : Int) : ValSize :=
  let diff := ((maxdata - mindata) % 2 ^ 64).toNat
  if diff = 0 ∨ diff = 1 then ⟨1, by decide⟩
  else ⟨topByte diff 7 + 1, Nat.succ_pos _, Nat.succ_le_succ (topByte_le diff 7)⟩

structure DeltaCoder where
  mindata : Int
  outValSize : ValSize

namespace DeltaCoder

/-- The constructor, with `extra` the greatest value. -/
def forCompress (mindata maxdata : Int) : DeltaCoder :=
  ⟨mindata, deltaGetBytesNum mindata maxdata⟩

/-- The constructor, with `extra` the width of the values to restore. -/
def forDecompress (mindata : Int) (eachValSize : ValSize) : DeltaCoder :=
  ⟨mindata, eachValSize⟩

def doDeltaOperation (plusDelta : Bool) (mindata : Int) (inValSize outValSize : ValSize)
    (inbuf : List UInt8) : List UInt8 :=
  let read := readData inValSize inbuf
  let rdata : Int := read.1
  let wdata := if plusDelta then rdata + mindata else rdata - mindata
  if _more : inValSize.1 ≤ read.2.length then
    writeInt64 outValSize wdata ++ doDeltaOperation plusDelta mindata inValSize outValSize read.2
  else writeInt64 outValSize wdata
termination_by inbuf.length
decreasing_by
  have := inValSize.2.1
  simp only [read, readData, List.length_drop] at *
  omega

def compress (coder : DeltaCoder) (inbuf : List UInt8) (inDataSize : ValSize) : List UInt8 :=
  doDeltaOperation false coder.mindata inDataSize coder.outValSize inbuf

def decompress (coder : DeltaCoder) (inbuf : List UInt8) (inDataSize : ValSize) : List UInt8 :=
  doDeltaOperation true coder.mindata inDataSize coder.outValSize inbuf

end DeltaCoder

private theorem small_of_byte_zero {diff i : Nat} (inside : i ≤ 7) (bound : diff < 256 ^ (i + 1))
    (zero : diff &&& deltaMasks.getD i 0 = 0) : diff < 256 ^ i := by
  have mask : deltaMasks.getD i 0 >>> (8 * i) = 2 ^ 8 - 1 := by
    interval_cases i <;> rfl
  have byte : diff >>> (8 * i) % 2 ^ 8 = 0 := by
    rw [← Nat.and_two_pow_sub_one_eq_mod, ← mask, ← Nat.shiftRight_and_distrib, zero, Nat.zero_shiftRight]
  have power : 2 ^ (8 * i) = 256 ^ i := by
    rw [Nat.pow_mul]
  rw [Nat.shiftRight_eq_div_pow, power] at byte
  rw [Nat.pow_succ] at bound
  have high : diff / 256 ^ i < 2 ^ 8 := Nat.div_lt_of_lt_mul bound
  rw [Nat.mod_eq_of_lt high] at byte
  exact (Nat.div_eq_zero_iff_lt (by positivity)).mp byte

theorem lt_topByte {diff i : Nat} (inside : i ≤ 7) (bound : diff < 256 ^ (i + 1)) :
    diff < 256 ^ (topByte diff i + 1) := by
  induction i with
  | zero => exact bound
  | succ i ih =>
    unfold topByte
    split
    · rename_i zero
      exact ih (by omega) (small_of_byte_zero inside bound zero)
    · exact bound

/-- The width found holds every distance up to the greatest. -/
theorem lt_deltaGetBytesNum {mindata maxdata : Int} (ordered : mindata ≤ maxdata)
    (bound : maxdata - mindata < 2 ^ 64) :
    maxdata - mindata < 256 ^ (deltaGetBytesNum mindata maxdata).1 := by
  have same : (maxdata - mindata) % 2 ^ 64 = maxdata - mindata :=
    Int.emod_eq_of_lt (by omega) bound
  simp only [deltaGetBytesNum, same]
  split
  · simp only [pow_one]
    omega
  · have small := @lt_topByte (maxdata - mindata).toNat 7 (by decide) (by norm_num; omega)
    dsimp only
    zify at small
    omega

private theorem byte_zero_of_small {diff i : Nat} (inside : i ≤ 7) (small : diff < 256 ^ i) :
    diff &&& deltaMasks.getD i 0 = 0 := by
  have mask : deltaMasks.getD i 0 = 0xFF <<< (8 * i) := by
    interval_cases i <;> rfl
  have power : 2 ^ (8 * i) = 256 ^ i := by
    rw [Nat.pow_mul]
  rw [mask]
  apply Nat.eq_of_testBit_eq
  intro bit
  rw [Nat.testBit_and, Nat.testBit_shiftLeft, Nat.zero_testBit]
  by_cases low : bit < 8 * i
  · simp [Nat.not_le.mpr low]
  · have high : diff.testBit bit = false := by
      apply Nat.testBit_lt_two_pow
      rw [← power] at small
      exact small.trans_le (Nat.pow_le_pow_right (by decide) (Nat.not_lt.mp low))
    simp [high]

theorem topByte_lt {diff i width : Nat} (inside : i ≤ 7) (positive : 0 < width)
    (small : diff < 256 ^ width) : topByte diff i < width := by
  induction i with
  | zero => exact positive
  | succ i ih =>
    unfold topByte
    split
    · exact ih (by omega)
    · rename_i occupied
      by_contra beyond
      apply occupied
      apply byte_zero_of_small inside
      exact small.trans_le (Nat.pow_le_pow_right (by decide) (Nat.not_lt.mp beyond))

/-- The width found is not more than the distances need. -/
theorem deltaGetBytesNum_le {mindata maxdata : Int} {width : Nat} (positive : 0 < width)
    (ordered : mindata ≤ maxdata) (small : maxdata - mindata < 256 ^ width)
    (bound : maxdata - mindata < 2 ^ 64) : (deltaGetBytesNum mindata maxdata).1 ≤ width := by
  have same : (maxdata - mindata) % 2 ^ 64 = maxdata - mindata :=
    Int.emod_eq_of_lt (by omega) bound
  simp only [deltaGetBytesNum, same]
  split
  · exact positive
  · apply topByte_lt (by decide) positive
    zify
    rw [Int.toNat_of_nonneg (by omega)]
    exact small

/-- The value of an integer type that a word of `width` bytes stands for. -/
def signedWord (width word : Nat) : Int :=
  if 2 * word < 256 ^ width then word else word - 256 ^ width

theorem signedWord_modEq (width word : Nat) : signedWord width word ≡ word [ZMOD 256 ^ width] := by
  unfold signedWord
  split
  · rfl
  · exact Int.sub_modulus_modEq_iff.mpr rfl

theorem leBytes_congr {width first second : Nat} (same : first % 256 ^ width = second % 256 ^ width) :
    leBytes width first = leBytes width second := by
  induction width generalizing first second with
  | zero => rfl
  | succ width ih =>
    rw [Nat.pow_succ', Nat.mod_mul, Nat.mod_mul] at same
    have low : first % 256 = second % 256 := by omega
    have high : first / 256 % 256 ^ width = second / 256 % 256 ^ width := by omega
    rw [leBytes, leBytes, ih high]
    congr 1
    apply UInt8.toNat_inj.mp
    rw [UInt8.toNat_ofNat', UInt8.toNat_ofNat']
    exact low

/-- Storing an `int64` in `width` bytes keeps it modulo `256 ^ width`. -/
theorem writeInt64_eq {width word : Nat} {data : Int} (inside : width ≤ 8)
    (same : data ≡ word [ZMOD 256 ^ width]) : writeInt64 width data = leBytes width word := by
  have divides : (256 : Int) ^ width ∣ 2 ^ 64 := by
    have power : (2 : Int) ^ 64 = 256 ^ 8 := by norm_num
    rw [power]
    exact pow_dvd_pow 256 inside
  apply leBytes_congr
  zify
  rw [Int.toNat_of_nonneg (Int.emod_nonneg _ (by norm_num)), Int.emod_emod_of_dvd _ divides]
  exact same

theorem doDeltaOperation_leWords {plusDelta : Bool} {mindata : Int} {inValSize outValSize : ValSize}
    {values : List Nat} {words : Nat → Nat} (nonempty : values ≠ [])
    (fits : ∀ value ∈ values, value < 256 ^ inValSize.1)
    (written : ∀ value ∈ values,
      writeInt64 outValSize (if plusDelta then value + mindata else value - mindata) =
        leBytes outValSize (words value)) :
    DeltaCoder.doDeltaOperation plusDelta mindata inValSize outValSize (leWords inValSize values) =
      leWords outValSize (values.map words) := by
  induction values with
  | nil => exact absurd rfl nonempty
  | cons value values ih =>
    have positive := inValSize.2.1
    obtain ⟨first, rest⟩ := List.forall_mem_cons.mp fits
    obtain ⟨here, later⟩ := List.forall_mem_cons.mp written
    rw [DeltaCoder.doDeltaOperation, leWords_cons, RleCoder.readData_leBytes first]
    dsimp only
    rw [here, List.map_cons, leWords_cons]
    cases values with
    | nil =>
      rw [dif_neg (by simpa using positive.ne')]
      simp
    | cons next values =>
      rw [dif_pos (by simp), ih (by simp) rest later]

def wordAt (width : Nat) (mindata : Int) (far : Nat) : Nat :=
  ((far + mindata) % 256 ^ width).toNat

/-- The distances stored for the values. -/
def distance (width : Nat) (mindata : Int) (word : Nat) : Nat :=
  (signedWord width word - mindata).toNat

theorem wordAt_distance {width word : Nat} {mindata : Int} (fits : word < 256 ^ width)
    (low : mindata ≤ signedWord width word) :
    wordAt width mindata (distance width mindata word) = word := by
  have exact : (distance width mindata word : Int) = signedWord width word - mindata :=
    Int.toNat_of_nonneg (by omega)
  have same : signedWord width word % 256 ^ width = word := by
    rw [signedWord_modEq width word]
    exact Int.emod_eq_of_lt (by omega) (by exact_mod_cast fits)
  rw [wordAt, exact, sub_add_cancel, same, Int.toNat_natCast]

variable {size : ValSize} {mindata maxdata : Int} {values : List Nat}
  (nonempty : values ≠ []) (fits : ∀ value ∈ values, value < 256 ^ size.1)
  (within : ∀ value ∈ values, mindata ≤ signedWord size value ∧ signedWord size value ≤ maxdata)
  (bound : maxdata - mindata < 2 ^ 64)

include within bound in
theorem distance_lt : ∀ value ∈ values,
    distance size mindata value < 256 ^ (deltaGetBytesNum mindata maxdata).1 := by
  intro value member
  obtain ⟨low, high⟩ := within value member
  have small := lt_deltaGetBytesNum (low.trans high) bound
  unfold distance
  zify
  omega

include nonempty fits within in
theorem DeltaCoder.compress_leWords (narrow : (deltaGetBytesNum mindata maxdata).1 ≤ size.1) :
    (forCompress mindata maxdata).compress (leWords size values) size =
      leWords (deltaGetBytesNum mindata maxdata) (values.map (distance size mindata)) := by
  apply doDeltaOperation_leWords nonempty fits
  intro value member
  apply writeInt64_eq (deltaGetBytesNum mindata maxdata).2.2
  obtain ⟨low, _⟩ := within value member
  have exact : (distance size mindata value : Int) = signedWord size value - mindata :=
    Int.toNat_of_nonneg (by omega)
  have same : (value : Int) ≡ signedWord size value [ZMOD 256 ^ (deltaGetBytesNum mindata maxdata).1] :=
    (signedWord_modEq size value).symm.of_dvd (pow_dvd_pow 256 narrow)
  rw [exact]
  exact same.sub_right mindata

include nonempty fits within bound in
theorem DeltaCoder.decompress_leWords : (forDecompress mindata size).decompress
      (leWords (deltaGetBytesNum mindata maxdata) (values.map (distance size mindata)))
      (deltaGetBytesNum mindata maxdata) = leWords size values := by
  have small := distance_lt within bound
  have restored : (values.map (distance size mindata)).map (wordAt size mindata) = values := by
    rw [List.map_map]
    refine (List.map_congr_left fun value member => ?_).trans (List.map_id _)
    exact wordAt_distance (fits value member) (within value member).1
  have power : (0 : Int) < 256 ^ size.1 := by positivity
  rw [← congrArg (leWords size) restored]
  refine doDeltaOperation_leWords (by simpa using nonempty) ?_ ?_
  · intro far member
    obtain ⟨value, held, rfl⟩ := List.mem_map.mp member
    exact small value held
  · intro far _
    apply writeInt64_eq size.2.2
    rw [wordAt, Int.toNat_of_nonneg (Int.emod_nonneg _ power.ne')]
    exact (Int.mod_modEq _ _).symm

end OpenGauss.CStore
