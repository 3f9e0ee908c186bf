import Mathlib.Data.BitVec
import OpenGauss.CStore.SequenceCodec

/-! Differences of differences of neighbouring values, `Delta2Codec` of `time_series_compress.cpp`.
-/

namespace OpenGauss.CStore

open Lib

namespace Delta2Codec

structure Delta2KeyMap where
  min : Nat
  max : Nat
  byteLen : Nat

def delta2KeyMax : Nat := 0x8

def keyMap : List Delta2KeyMap :=
  [⟨0, 0, 0x0⟩, ⟨0, 0xFF, 0x1⟩, ⟨0xFF, 0xFFFF, 0x2⟩, ⟨0xFFFF, 0xFFFFFF, 0x3⟩,
    ⟨0xFFFFFF, 0xFFFFFFFF, 0x4⟩, ⟨0xFFFFFFFF, 0xFFFFFFFFFF, 0x5⟩,
    ⟨0xFFFFFFFFFF, 0xFFFFFFFFFFFF, 0x6⟩, ⟨0xFFFFFFFFFFFF, 0xFFFFFFFFFFFFFF, 0x7⟩,
    ⟨0xFFFFFFFFFFFFFF, 0x7FFFFFFFFFFFFFFF, 0x8⟩]

def keyAt (index : Nat) : Delta2KeyMap := keyMap.getD index ⟨0, 0, 0⟩

/-- The value or its negation lies in the range of the entry. -/
def InRange (value : BitVec 64) (index : Nat) : Prop :=
  (value.toInt ≤ (keyAt index).max ∧ (keyAt index).min < value.toInt) ∨
    ((-value).toInt ≤ (keyAt index).max ∧ (keyAt index).min < (-value).toInt)

/-- The value or its negation lies above the range of the entry. -/
def AboveRange (value : BitVec 64) (index : Nat) : Prop :=
  (keyAt index).max < value.toInt ∨ (keyAt index).max < (-value).toInt

instance (value : BitVec 64) (index : Nat) : Decidable (InRange value index) :=
  inferInstanceAs (Decidable (_ ∨ _))

instance (value : BitVec 64) (index : Nat) : Decidable (AboveRange value index) :=
  inferInstanceAs (Decidable (_ ∨ _))

variable {index : Nat} {value : BitVec 64}

theorem keyAt_next (inside : index < delta2KeyMax) : (keyAt (index + 1)).min = (keyAt index).max := by
  rw [delta2KeyMax] at inside
  interval_cases index <;> rfl

theorem keyAt_max (inside : index < delta2KeyMax) :
    (keyAt index).max + 1 = 256 ^ index ∧ (keyAt index).byteLen = index := by
  rw [delta2KeyMax] at inside
  interval_cases index <;> exact ⟨rfl, rfl⟩

theorem InRange.magnitude (found : InRange value index) :
    value.toInt.natAbs ≤ (keyAt index).max ∧ (keyAt index).min < value.toInt.natAbs := by
  have negated := @BitVec.toInt_neg_eq_ite 64 value
  unfold InRange at found
  split at negated
  · rename_i least
    have negative : value.toInt < 0 := by
      rw [least]
      decide
    omega
  · omega

/-- Steps to the end of the search: it does not turn round. -/
def searchBound (value : BitVec 64) (index : Nat) : Nat :=
  if delta2KeyMax ≤ index then 0
  else if InRange value index then 1
  else if AboveRange value index then delta2KeyMax + 2 - index
  else index + 2

theorem searchBound_up (inside : index < delta2KeyMax) (outside : ¬ InRange value index)
    (above : AboveRange value index) :
    searchBound value (index + 1) < searchBound value index := by
  have here : searchBound value index = delta2KeyMax + 2 - index := by
    rw [searchBound, if_neg (by omega), if_neg outside, if_pos above]
  have table := keyAt_next inside
  rw [here, searchBound]
  split
  · omega
  · split
    · omega
    · rename_i beyond
      have next : AboveRange value (index + 1) := by
        unfold InRange at beyond
        unfold AboveRange at above ⊢
        omega
      rw [if_pos next]
      omega

theorem searchBound_down (inside : index < delta2KeyMax) (outside : ¬ InRange value index)
    (below : ¬ AboveRange value index) :
    searchBound value ((index + 0xFFFF) % 0x10000) < searchBound value index := by
  have here : searchBound value index = index + 2 := by
    rw [searchBound, if_neg (by omega), if_neg outside, if_neg below]
  rw [here, searchBound]
  split
  · omega
  · rename_i reached
    rw [delta2KeyMax] at inside reached
    obtain ⟨least, rfl⟩ : ∃ least, index = least + 1 := ⟨index - 1, by omega⟩
    have table := @keyAt_next least (by rw [delta2KeyMax]; omega)
    have wrapped : (least + 1 + 0xFFFF) % 0x10000 = least := by omega
    rw [wrapped]
    split
    · omega
    · have before : ¬ AboveRange value least := by
        unfold InRange at outside
        unfold AboveRange at below ⊢
        omega
      rw [if_neg before]
      omega

def keySign (value : BitVec 64) : Nat := if value.toInt ≤ 0 then 0x0 else delta2KeyMax

/-- The loop of `find_key`; the 16-bit index 0 counts down to one past the table. -/
def findKeyFrom (value : BitVec 64) (index : Nat) : Nat :=
  if _inside : index < delta2KeyMax then
    if InRange value index then index + keySign value
    else if AboveRange value index then findKeyFrom value (index + 1)
    else findKeyFrom value ((index + 0xFFFF) % 0x10000)
  else delta2KeyMax
termination_by searchBound value index
decreasing_by
  · exact searchBound_up ‹_› ‹_› ‹_›
  · exact searchBound_down ‹_› ‹_› ‹_›

def findKey (value : BitVec 64) : Nat := findKeyFrom value (delta2KeyMax / 2)

/-- Eight bytes, or fewer of them that hold the magnitude. -/
theorem findKeyFrom_spec (value : BitVec 64) (index : Nat) :
    findKeyFrom value index = delta2KeyMax ∨ ∃ bytes, 0 < bytes ∧ bytes < delta2KeyMax ∧
      value.toInt.natAbs < 256 ^ bytes ∧ findKeyFrom value index = bytes + keySign value := by
  fun_induction findKeyFrom value index with
  | case1 index inside found =>
    obtain ⟨below, above⟩ := found.magnitude
    have most := (keyAt_max inside).1
    refine Or.inr ⟨index, ?_, inside, by omega, rfl⟩
    by_contra absent
    have first : index = 0 := by omega
    subst first
    have zero : (keyAt 0).max = 0 := rfl
    omega
  | case2 index inside outside above ih => exact ih
  | case3 index inside outside below ih => exact ih
  | case4 => exact Or.inl rfl

def writeValue (value : BitVec 64) : List UInt8 :=
  if value = 0 then [0]
  else
    let key := findKey value
    if key = delta2KeyMax then
      UInt8.ofNat key :: writeData (keyAt delta2KeyMax).byteLen value.toNat
    else
      let keyIdx := key &&& 0x7
      let tmp := if key &&& 0x8 = 0 then -value else value
      UInt8.ofNat key :: writeData (keyAt keyIdx).byteLen ((keyAt keyIdx).max &&& tmp.toNat)

/-- The difference, and the input after it. -/
def readValue (inbuf : List UInt8) : BitVec 64 × List UInt8 :=
  let (tmp, inbuf) := readData 1 inbuf
  let key := tmp &&& 0xFF
  if key = 0 then (0, inbuf)
  else if key = delta2KeyMax then
    let (tmp, inbuf) := readData 8 inbuf
    (BitVec.ofNat 64 tmp, inbuf)
  else
    let (tmp, inbuf) := readData (key &&& 0x7) inbuf
    (if key &&& 0x8 = 0 then -BitVec.ofNat 64 tmp else BitVec.ofNat 64 tmp, inbuf)

theorem key_bits {bytes : Nat} (few : bytes < 8) :
    bytes &&& 0x7 = bytes ∧ bytes &&& 0x8 = 0 ∧ (bytes + 8) &&& 0x7 = bytes ∧ (bytes + 8) &&& 0x8 ≠ 0 := by
  interval_cases bytes <;> decide

theorem and_max {index value : Nat} (inside : index < delta2KeyMax) (fits : value < 256 ^ index) :
    (keyAt index).max &&& value = value := by
  have power : 256 ^ index = 2 ^ (8 * index) := by rw [Nat.pow_mul]
  have most : (keyAt index).max = 2 ^ (8 * index) - 1 := by
    have table := (keyAt_max inside).1
    omega
  rw [most, Nat.and_comm, Nat.and_two_pow_sub_one_eq_mod, ← power, Nat.mod_eq_of_lt fits]

/-- The two shapes of a difference that is not 0. -/
theorem writeValue_cases (nonzero : value ≠ 0) : writeValue value = UInt8.ofNat 8 :: leBytes 8 value.toNat ∨
      ∃ bytes, 0 < bytes ∧ bytes < 8 ∧ ((value.toInt ≤ 0 ∧ (-value).toNat < 256 ^ bytes ∧
          writeValue value = UInt8.ofNat bytes :: leBytes bytes (-value).toNat) ∨
        (0 < value.toInt ∧ value.toNat < 256 ^ bytes ∧
          writeValue value = UInt8.ofNat (bytes + 8) :: leBytes bytes value.toNat)) := by
  unfold writeValue
  rw [if_neg nonzero]
  rcases findKeyFrom_spec value (delta2KeyMax / 2) with whole | ⟨bytes, present, few, fits, key⟩
  · left
    rw [findKey, whole]
    rfl
  · right
    have short : bytes < 8 := few
    obtain ⟨low, unset, lowSigned, set⟩ := key_bits short
    obtain ⟨_, length⟩ := keyAt_max few
    have signed := @BitVec.toInt_eq_toNat_cond 64 value
    have negated := @BitVec.toNat_neg 64 value
    have size := value.isLt
    refine ⟨bytes, present, few, ?_⟩
    rw [findKey, key, keySign]
    by_cases negative : value.toInt ≤ 0
    · have magnitude : (-value).toNat < 256 ^ bytes := by
        split at signed <;> omega
      refine Or.inl ⟨negative, magnitude, ?_⟩
      rw [if_pos negative, Nat.add_zero, if_neg few.ne]
      simp only [low, unset, if_true, length, and_max few magnitude, writeData]
    · have magnitude : value.toNat < 256 ^ bytes := by
        split at signed <;> omega
      refine Or.inr ⟨not_le.mp negative, magnitude, ?_⟩
      rw [if_neg negative, if_neg (by rw [delta2KeyMax]; omega)]
      simp only [delta2KeyMax, lowSigned, set, if_false, length, and_max few magnitude, writeData]

theorem readData_byte {byte : Nat} (small : byte < 256) (rest : List UInt8) :
    readData 1 (UInt8.ofNat byte :: rest) = (byte, rest) := by
  rw [readData]
  simp only [List.take_succ_cons, List.take_zero, leNat, List.drop_succ_cons, List.drop_zero,
    UInt8.toNat_ofNat']
  rw [Nat.mod_eq_of_lt small, Nat.mul_zero, Nat.add_zero]

theorem readValue_writeValue (value : BitVec 64) (rest : List UInt8) :
    readValue (writeValue value ++ rest) = (value, rest) := by
  by_cases zero : value = 0
  · subst zero
    have first := @readData_byte 0 (by decide) rest
    change readValue (UInt8.ofNat 0 :: rest) = (0, rest)
    rw [readValue, first]
    rfl
  · have byte : ∀ key, key < 16 → key &&& 0xFF = key := by decide
    rcases writeValue_cases zero with whole | ⟨bytes, present, few, negative | positive⟩
    · have fits : value.toNat < 256 ^ 8 := value.isLt
      have first := @readData_byte 8 (by decide) (leBytes 8 value.toNat ++ rest)
      rw [whole, readValue, List.cons_append, first]
      simp only [delta2KeyMax, RleCoder.readData_leBytes fits, BitVec.ofNat_toNat, BitVec.setWidth_eq]
      rfl
    · obtain ⟨_, fits, written⟩ := negative
      have first := @readData_byte bytes (by omega) (leBytes bytes (-value).toNat ++ rest)
      obtain ⟨low, unset, _, _⟩ := key_bits few
      rw [written, readValue, List.cons_append, first]
      simp only [byte bytes (by omega), delta2KeyMax, if_neg present.ne', if_neg few.ne, low, unset,
        RleCoder.readData_leBytes fits, BitVec.ofNat_toNat, BitVec.setWidth_eq, if_true,
        BitVec.neg_neg]
    · obtain ⟨_, fits, written⟩ := positive
      have first := @readData_byte (bytes + 8) (by omega) (leBytes bytes value.toNat ++ rest)
      obtain ⟨_, _, low, set⟩ := key_bits few
      rw [written, readValue, List.cons_append, first]
      simp only [byte (bytes + 8) (by omega), delta2KeyMax, if_neg (show bytes + 8 ≠ 0 by omega),
        if_neg (show bytes + 8 ≠ 8 by omega), low, set, RleCoder.readData_leBytes fits,
        BitVec.ofNat_toNat, BitVec.setWidth_eq, if_false]

/-- What is written for a value, and `pre_delta` after it. -/
def appendValue (dataSize count : Nat) (preData preDelta readData : BitVec 64) : List UInt8 × BitVec 64 :=
  if count = 0 then (writeData dataSize readData.toNat, preDelta)
  else if count = 1 then (writeValue (readData - preData), readData - preData)
  else
    let delta2 := readData - preData - preDelta
    (writeValue delta2, preDelta + delta2)

/-- The loop over the values, the first of which is always read. -/
def appendValues (dataSize : Nat) (positive : 0 < dataSize) (count : Nat)
    (preData preDelta : BitVec 64) (inbuf : List UInt8) : List UInt8 :=
  let read := readData dataSize inbuf
  let value := BitVec.ofNat 64 read.1
  let written := appendValue dataSize count preData preDelta value
  if dataSize ≤ read.2.length then
    written.1 ++ appendValues dataSize positive (count + 1) value written.2 read.2
  else written.1
termination_by inbuf.length
decreasing_by
  simp only [read, readData, List.length_drop] at *
  omega

def compress (dataSize : Nat) (positive : 0 < dataSize) (inbuf : List UInt8) : List UInt8 :=
  appendValues dataSize positive 0 0 0 inbuf

/-- The value restored, `pre_delta` after it, and the input after it. -/
def restoreValue (dataSize count : Nat) (writeData preDelta : BitVec 64) (inbuf : List UInt8) :
    BitVec 64 × BitVec 64 × List UInt8 :=
  if count = 0 then
    let (value, inbuf) := readData dataSize inbuf
    (BitVec.ofNat 64 value, preDelta, inbuf)
  else
    let (delta, inbuf) := readValue inbuf
    if count = 1 then (writeData + delta, delta, inbuf)
    else (writeData + (preDelta + delta), preDelta + delta, inbuf)

theorem readValue_drop (inbuf : List UInt8) : ∃ read, 0 < read ∧ (readValue inbuf).2 = inbuf.drop read := by
  unfold readValue
  dsimp only [readData]
  split
  · exact ⟨1, by decide, rfl⟩
  · split
    · exact ⟨1 + 8, by decide, List.drop_drop⟩
    · exact ⟨1 + _, by omega, List.drop_drop⟩

theorem restoreValue_drop {dataSize : Nat} (positive : 0 < dataSize) (count : Nat)
    (writeData preDelta : BitVec 64) (inbuf : List UInt8) :
    ∃ read, 0 < read ∧ (restoreValue dataSize count writeData preDelta inbuf).2.2 = inbuf.drop read := by
  obtain ⟨read, present, rest⟩ := readValue_drop inbuf
  unfold restoreValue
  split
  · exact ⟨dataSize, positive, rfl⟩
  · dsimp only
    split
    · exact ⟨read, present, rest⟩
    · exact ⟨read, present, rest⟩

/-- The loop over what was compressed, a key of one byte at least for each value. -/
def restoreValues (dataSize : Nat) (positive : 0 < dataSize) (count : Nat)
    (writeData preDelta : BitVec 64) (inbuf : List UInt8) : List UInt8 :=
  let restored := restoreValue dataSize count writeData preDelta inbuf
  let bytes := CStore.writeData dataSize restored.1.toNat
  if 1 ≤ restored.2.2.length then
    bytes ++ restoreValues dataSize positive (count + 1) restored.1 restored.2.1 restored.2.2
  else bytes
termination_by inbuf.length
decreasing_by
  obtain ⟨read, present, rest⟩ := restoreValue_drop positive count writeData preDelta inbuf
  simp only [restored, rest, List.length_drop] at *
  omega

def decompress (dataSize : Nat) (positive : 0 < dataSize) (inbuf : List UInt8) : List UInt8 :=
  restoreValues dataSize positive 0 0 0 inbuf

/-- A value is restored, with what both sides keep for the next one. -/
theorem restoreValue_appendValue {dataSize count : Nat} {preData preDelta value : BitVec 64}
    (fits : value.toNat < 256 ^ dataSize) (rest : List UInt8) :
    restoreValue dataSize count preData preDelta
        ((appendValue dataSize count preData preDelta value).1 ++ rest) =
      (value, (appendValue dataSize count preData preDelta value).2, rest) := by
  unfold restoreValue appendValue
  by_cases first : count = 0
  · simp only [if_pos first, writeData, RleCoder.readData_leBytes fits, BitVec.ofNat_toNat,
      BitVec.setWidth_eq]
  · by_cases second : count = 1
    · have back : preData + (value - preData) = value := by ring
      simp only [if_neg first, if_pos second, readValue_writeValue, back]
    · have back : preData + (preDelta + (value - preData - preDelta)) = value := by ring
      simp only [if_neg first, if_neg second, readValue_writeValue, back]

section

variable {dataSize : Nat} (positive : 0 < dataSize)

include positive

theorem appendValue_ne_nil (count : Nat) (preData preDelta value : BitVec 64) :
    (appendValue dataSize count preData preDelta value).1 ≠ [] := by
  have written : ∀ difference, writeValue difference ≠ [] := by
    intro difference
    unfold writeValue
    split
    · simp
    · dsimp only
      split <;> simp
  unfold appendValue
  split
  · intro absent
    have length := congrArg List.length absent
    rw [writeData, length_leBytes, List.length_nil] at length
    omega
  · split <;> exact written _

theorem one_le_length_appendValues (count : Nat) (preData preDelta : BitVec 64) (inbuf : List UInt8) :
    1 ≤ (appendValues dataSize positive count preData preDelta inbuf).length := by
  have first := fun value =>
    List.length_pos_iff.mpr (appendValue_ne_nil positive count preData preDelta value)
  rw [appendValues]
  split
  · rw [List.length_append]
    exact Nat.le_add_right_of_le (first _)
  · exact first _

theorem restoreValues_appendValues (narrow : dataSize ≤ 8)
    {value : Nat} {values : List Nat} (fits : ∀ word ∈ value :: values, word < 256 ^ dataSize)
    (count : Nat) (preData preDelta : BitVec 64) :
    restoreValues dataSize positive count preData preDelta
        (appendValues dataSize positive count preData preDelta (leWords dataSize (value :: values))) =
      leWords dataSize (value :: values) := by
  have width : 256 ^ dataSize ≤ 2 ^ 64 :=
    (Nat.pow_le_pow_right (by decide) narrow).trans (by decide)
  induction values generalizing value count preData preDelta with
  | nil =>
    have first := fits value List.mem_cons_self
    have same : (BitVec.ofNat 64 value).toNat = value :=
      Nat.mod_eq_of_lt (first.trans_le width)
    have restored := @restoreValue_appendValue dataSize count preData preDelta
      (BitVec.ofNat 64 value) (by rwa [same]) []
    rw [List.append_nil] at restored
    rw [leWords_cons, appendValues, RleCoder.readData_leBytes first]
    dsimp only
    rw [if_neg (by rw [leWords_nil, List.length_nil]; omega), restoreValues, restored]
    dsimp only
    rw [if_neg (by simp), same, leWords_nil, List.append_nil, writeData]
  | cons next values ih =>
    obtain ⟨first, others⟩ := List.forall_mem_cons.mp fits
    have same : (BitVec.ofNat 64 value).toNat = value :=
      Nat.mod_eq_of_lt (first.trans_le width)
    rw [leWords_cons, appendValues, RleCoder.readData_leBytes first]
    dsimp only
    rw [if_pos (by simp), restoreValues, restoreValue_appendValue (by rwa [same])]
    dsimp only
    rw [if_pos (one_le_length_appendValues positive _ _ _ _), same, ih others, writeData]

theorem decompress_compress (narrow : dataSize ≤ 8)
    {source : List UInt8} (nonempty : source ≠ []) (whole : dataSize ∣ source.length) :
    decompress dataSize positive (compress dataSize positive source) = source := by
  obtain ⟨count, length⟩ := whole
  obtain ⟨values, counted, fits, rfl⟩ := exists_leWords (length.trans (Nat.mul_comm _ _))
  cases values with
  | nil => exact absurd rfl nonempty
  | cons value values => exact restoreValues_appendValues positive narrow fits 0 0 0

end

/-- 64-bit integers are restored, whatever their differences are. -/
theorem decompress_compress_int64 (values : List (BitVec 64)) (nonempty : values ≠ []) :
    decompress 8 (by decide) (compress 8 (by decide) (leWords 8 (values.map BitVec.toNat))) =
      leWords 8 (values.map BitVec.toNat) := by
  apply decompress_compress (by decide) le_rfl
  · intro absent
    have length := congrArg List.length absent
    rw [length_leWords, List.length_map, List.length_nil] at length
    exact nonempty (List.eq_nil_of_length_eq_zero (by omega))
  · exact ⟨values.length, by rw [length_leWords, List.length_map, Nat.mul_comm]⟩

/-- The differences of the least and the greatest integer wrap. -/
theorem decompress_compress_int64_sample : decompress 8 (by decide) (compress 8 (by decide) (leWords 8
        ([BitVec.intMin 64, BitVec.intMax 64, BitVec.intMin 64].map BitVec.toNat))) =
      leWords 8 ([BitVec.intMin 64, BitVec.intMax 64, BitVec.intMin 64].map BitVec.toNat) :=
  decompress_compress_int64 _ (by decide)

end Delta2Codec

end OpenGauss.CStore
