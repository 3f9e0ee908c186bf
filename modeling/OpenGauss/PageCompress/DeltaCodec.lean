import Mathlib.Data.List.ReduceOption
import Mathlib.Tactic

namespace OpenGauss.PageCompress

abbrev Datum := UInt64

/-- The four sets of functions in `g_number_types`. -/
inductive NumberTypeOpt where
  | int16
  | int32
  | uint32
  | int64
deriving DecidableEq, Repr

def datumGetInt16 (datum : Datum) : Int16 := datum.toUInt16.toInt16

def datumGetInt32 (datum : Datum) : Int32 := datum.toUInt32.toInt32

def datumGetUInt32 (datum : Datum) : UInt32 := datum.toUInt32

def datumGetInt64 (datum : Datum) : Int64 := datum.toInt64

def int16GetDatum (val : Int16) : Datum := val.toUInt16.toUInt64

def int32GetDatum (val : Int32) : Datum := val.toUInt32.toUInt64

def uint32GetDatum (val : UInt32) : Datum := val.toUInt64

def int64GetDatum (val : Int64) : Datum := val.toUInt64

namespace NumberTypeOpt

def compare : NumberTypeOpt → Datum → Datum → Ordering
  | int16, arg1, arg2 => Ord.compare (datumGetInt16 arg1) (datumGetInt16 arg2)
  | int32, arg1, arg2 => Ord.compare (datumGetInt32 arg1) (datumGetInt32 arg2)
  | uint32, arg1, arg2 => Ord.compare (datumGetUInt32 arg1) (datumGetUInt32 arg2)
  | int64, arg1, arg2 => Ord.compare (datumGetInt64 arg1) (datumGetInt64 arg2)

/-- The difference wraps in the type it is computed in: `int` for both shorter signed types. -/
def minus : NumberTypeOpt → Datum → Datum → Int64
  | int16, arg1, arg2 => ((datumGetInt16 arg1).toInt32 - (datumGetInt16 arg2).toInt32).toInt64
  | int32, arg1, arg2 => (datumGetInt32 arg1 - datumGetInt32 arg2).toInt64
  | uint32, arg1, arg2 => (datumGetUInt32 arg1 - datumGetUInt32 arg2).toUInt64.toInt64
  | int64, arg1, arg2 => datumGetInt64 arg1 - datumGetInt64 arg2

def plus : NumberTypeOpt → Datum → Int64 → Datum
  | int16, arg1, arg2 =>
    int16GetDatum ((datumGetInt16 arg1).toInt32 + arg2.toInt16.toInt32).toInt16
  | int32, arg1, arg2 => int32GetDatum (datumGetInt32 arg1 + arg2.toInt32)
  | uint32, arg1, arg2 => uint32GetDatum (datumGetUInt32 arg1 + arg2.toUInt64.toUInt32)
  | int64, arg1, arg2 => int64GetDatum (datumGetInt64 arg1 + arg2)

/-- What `fetch_att` makes of a stored value of the type. -/
def IsDatum : NumberTypeOpt → Datum → Prop
  | int16, datum => ∃ val, datum = int16GetDatum val
  | int32, datum => ∃ val, datum = int32GetDatum val
  | uint32, datum => ∃ val, datum = uint32GetDatum val
  | int64, datum => ∃ val, datum = int64GetDatum val

@[simp] theorem datumGetInt16_int16GetDatum (val : Int16) : datumGetInt16 (int16GetDatum val) = val := by
  simp [datumGetInt16, int16GetDatum]

@[simp] theorem datumGetInt32_int32GetDatum (val : Int32) : datumGetInt32 (int32GetDatum val) = val := by
  simp [datumGetInt32, int32GetDatum]

@[simp] theorem datumGetUInt32_uint32GetDatum (val : UInt32) :
    datumGetUInt32 (uint32GetDatum val) = val := by
  simp [datumGetUInt32, uint32GetDatum]

@[simp] theorem datumGetInt64_int64GetDatum (val : Int64) : datumGetInt64 (int64GetDatum val) = val := by
  simp [datumGetInt64, int64GetDatum]

/-- A difference may wrap; adding it again wraps back. -/
theorem plus_minus (opt : NumberTypeOpt) {val base : Datum} (valued : opt.IsDatum val)
    (based : opt.IsDatum base) : opt.plus base (opt.minus val base) = val := by
  cases opt with
  | int16 =>
    obtain ⟨val, rfl⟩ := valued
    obtain ⟨base, rfl⟩ := based
    simp only [plus, minus, datumGetInt16_int16GetDatum, Int32.toInt16_toInt64,
      Int32.toInt16_sub, Int32.toInt16_add, Int16.toInt16_toInt32]
    rw [Int16.add_comm, Int16.sub_add_cancel]
  | int32 =>
    obtain ⟨val, rfl⟩ := valued
    obtain ⟨base, rfl⟩ := based
    simp only [plus, minus, datumGetInt32_int32GetDatum, Int32.toInt32_toInt64]
    rw [Int32.add_comm, Int32.sub_add_cancel]
  | uint32 =>
    obtain ⟨val, rfl⟩ := valued
    obtain ⟨base, rfl⟩ := based
    simp only [plus, minus, datumGetUInt32_uint32GetDatum, UInt64.toUInt64_toInt64, UInt32.toUInt32_toUInt64]
    rw [UInt32.add_comm, UInt32.sub_add_cancel]
  | int64 =>
    obtain ⟨val, rfl⟩ := valued
    obtain ⟨base, rfl⟩ := based
    simp only [plus, minus, datumGetInt64_int64GetDatum]
    rw [Int64.add_comm, Int64.sub_add_cancel]

theorem minus_self (opt : NumberTypeOpt) (base : Datum) : opt.minus base base = 0 := by
  cases opt <;> simp [minus]

end NumberTypeOpt

/-- `limit` doubles until it reaches the difference; 64 rounds are enough for every difference
that is looked at. -/
def bitsLoop (delta : UInt64) : Nat → UInt64 → Nat
  | 0, _ => 0
  | rounds + 1, limit => if limit < delta then bitsLoop delta rounds (limit <<< 1) + 1 else 0

def getBitsOfDelta (delta : UInt64) : Nat :=
  if 0x7FFFFFFFFFFFFFFF < delta then 64 else bitsLoop delta 64 1

def getSizeOfBits (bits : Nat) : Nat := (bits + 7) / 8

def maxValueInBytes : List Int64 :=
  [0x0000000000000000, 0x00000000000000FF, 0x000000000000FFFF, 0x0000000000FFFFFF,
    0x00000000FFFFFFFF, 0x000000FFFFFFFFFF, 0x0000FFFFFFFFFFFF, 0x00FFFFFFFFFFFFFF]

def numberMaxValueInBytes : Nat := maxValueInBytes.length

structure DeltaCmprMeta where
  minVal : Datum
  maxVal : Datum
  bytes : Nat
deriving DecidableEq, Repr

def widen (opt : NumberTypeOpt) (range : Datum × Datum) (value : Datum) : Datum × Datum :=
  if opt.compare range.1 value = .gt then (value, range.2)
  else if opt.compare range.2 value = .lt then (range.1, value)
  else range

/-- A column of a page, `none` for a null. -/
def deltaGetCmprMeta (colArray : List (Option Datum)) (opt : NumberTypeOpt) : Option DeltaCmprMeta :=
  match colArray.reduceOption with
  | [] => none
  | first :: values =>
    let (minVal, maxVal) := values.foldl (widen opt) (first, first)
    let bytes := getSizeOfBits (getBitsOfDelta (opt.minus maxVal minVal).toUInt64)
    if numberMaxValueInBytes ≤ bytes then none else some ⟨minVal, maxVal, bytes⟩

def storeDelta : Nat → UInt64 → List UInt8
  | 0, _ => []
  | bytes + 1, udiff => storeDelta bytes (udiff >>> 8) ++ [udiff.toUInt8]

/-- The bytes of the difference, `none` where the value is not compressed. -/
def deltaCompress (metaInfo : DeltaCmprMeta) (opt : NumberTypeOpt) (val : Datum) : Option (List UInt8) :=
  let diff := opt.minus val metaInfo.minVal
  if diff < 0 ∨ maxValueInBytes.getD metaInfo.bytes 0 < diff then none
  else some (storeDelta metaInfo.bytes diff.toUInt64)

/-- `deltaBuf` is what can be read from the pointer on; `none` where a read leaves it. The first
byte is read whatever the width is. -/
def deltaUncompress (metaInfo : DeltaCmprMeta) (opt : NumberTypeOpt) (deltaBuf : List UInt8) :
    Option Datum :=
  match deltaBuf with
  | [] => none
  | first :: rest =>
    if rest.length < metaInfo.bytes - 1 then none
    else
      let diff : UInt64 := (rest.take (metaInfo.bytes - 1)).foldl
        (fun (diff : UInt64) byte => diff <<< 8 ||| byte.toUInt64) first.toUInt64
      some (opt.plus metaInfo.minVal diff.toInt64)

/-- The branch `CMPR_DELTA` of `UncompressOneAttr`: the value and how many bytes it took. The
type of a dropped attribute is not known any more. -/
def uncompressOneAttrDelta (metaInfo : DeltaCmprMeta) (opt : Option NumberTypeOpt)
    (attrStart : List UInt8) : Option (Datum × Nat) :=
  if metaInfo.bytes = 0 then some (metaInfo.minVal, 0)
  else
    match opt with
    | none => some (0, metaInfo.bytes)
    | some opt => (deltaUncompress metaInfo opt attrStart).map fun datum => (datum, metaInfo.bytes)

def readDelta (bytes : List UInt8) : UInt64 :=
  bytes.foldl (fun (diff : UInt64) byte => diff <<< 8 ||| byte.toUInt64) 0

@[simp] theorem length_storeDelta (bytes : Nat) (udiff : UInt64) :
    (storeDelta bytes udiff).length = bytes := by
  induction bytes generalizing udiff with
  | zero => rfl
  | succ bytes hyp => rw [storeDelta, List.length_append, hyp, List.length_singleton]

theorem shiftRight_toNat (udiff : UInt64) : (udiff >>> 8).toNat = udiff.toNat / 2 ^ 8 := by
  rw [UInt64.toNat_shiftRight]
  exact Nat.shiftRight_eq_div_pow _ _

theorem shift_or (udiff : UInt64) : (udiff >>> 8) <<< 8 ||| udiff.toUInt8.toUInt64 = udiff := by
  have high : ((udiff >>> 8) <<< 8).toNat = 2 ^ 8 * (udiff.toNat / 2 ^ 8) := by
    have bound := udiff.toNat_lt
    rw [UInt64.toNat_shiftLeft, shiftRight_toNat]
    change (udiff.toNat / 2 ^ 8) <<< 8 % 2 ^ 64 = _
    rw [Nat.shiftLeft_eq]
    omega
  rw [← UInt64.toNat_inj, UInt64.toNat_or, high, UInt8.toNat_toUInt64, UInt64.toNat_toUInt8,
    ← Nat.two_pow_add_eq_or_of_lt (Nat.mod_lt _ (by decide)), Nat.div_add_mod]

variable {bytes : Nat} {metaInfo : DeltaCmprMeta} {delta : List UInt8} {opt : NumberTypeOpt} {val : Datum}

theorem readDelta_storeDelta {udiff : UInt64} (fits : udiff.toNat < 256 ^ bytes) :
    readDelta (storeDelta bytes udiff) = udiff := by
  induction bytes generalizing udiff with
  | zero =>
    have gone : udiff.toNat = 0 := by omega
    exact (UInt64.toNat_inj.mp gone).symm
  | succ bytes hyp =>
    have shifted : (udiff >>> 8).toNat < 256 ^ bytes := by
      rw [shiftRight_toNat, Nat.div_lt_iff_lt_mul (by decide)]
      exact fits
    have front := hyp shifted
    rw [readDelta] at front ⊢
    rw [storeDelta, List.foldl_append, front, List.foldl_cons, List.foldl_nil, shift_or]

/-- Without a read past the end the first byte and the loop read the bytes as one number. -/
theorem deltaUncompress_append (opt : NumberTypeOpt) (wide : metaInfo.bytes ≠ 0)
    (width : delta.length = metaInfo.bytes) (rest : List UInt8) : deltaUncompress metaInfo opt (delta ++ rest) =
      some (opt.plus metaInfo.minVal (readDelta delta).toInt64) := by
  cases delta with
  | nil => exact absurd width.symm wide
  | cons first others =>
    have count : others.length = metaInfo.bytes - 1 := by
      rw [← width, List.length_cons, Nat.add_sub_cancel]
    have start : (0 : UInt64) <<< 8 ||| first.toUInt64 = first.toUInt64 := by simp
    have inside : ¬ (others ++ rest).length < metaInfo.bytes - 1 := by
      rw [List.length_append]
      omega
    rw [List.cons_append, deltaUncompress, if_neg inside, ← count, List.take_left]
    dsimp only
    rw [readDelta, List.foldl_cons, start]

theorem maxValueInBytes_getD (narrow : bytes < numberMaxValueInBytes) :
    (maxValueInBytes.getD bytes 0).toInt = 256 ^ bytes - 1 := by
  change bytes < 8 at narrow
  interval_cases bytes <;> decide

theorem toUInt64_toNat {diff : Int64} (nonneg : 0 ≤ diff.toInt) :
    (diff.toUInt64.toNat : Int) = diff.toInt := by
  have signed : diff.toBitVec.toInt = diff.toInt := rfl
  have bound := diff.toBitVec.isLt
  change (diff.toBitVec.toNat : Int) = _
  rw [← signed, BitVec.toInt_eq_toNat_cond] at nonneg ⊢
  split at nonneg <;> split <;> omega

theorem deltaCompress_eq (narrow : metaInfo.bytes < numberMaxValueInBytes)
    (accepted : deltaCompress metaInfo opt val = some delta) :
    delta = storeDelta metaInfo.bytes (opt.minus val metaInfo.minVal).toUInt64 ∧
      (opt.minus val metaInfo.minVal).toUInt64.toNat < 256 ^ metaInfo.bytes := by
  unfold deltaCompress at accepted
  dsimp only at accepted
  split_ifs at accepted with refused
  obtain ⟨nonneg, most⟩ := not_or.mp refused
  rw [Int64.not_lt, Int64.le_iff_toInt_le] at nonneg most
  rw [maxValueInBytes_getD narrow] at most
  refine ⟨(Option.some.inj accepted).symm, ?_⟩
  have value := toUInt64_toNat (by simpa using nonneg)
  have bound : ((opt.minus val metaInfo.minVal).toUInt64.toNat : Int) <
      ((256 ^ metaInfo.bytes : Nat) : Int) := by
    rw [value]
    push_cast
    omega
  exact_mod_cast bound

theorem widen_fold_mem (opt : NumberTypeOpt) (values : List Datum) (range : Datum × Datum) :
    (values.foldl (widen opt) range).1 = range.1 ∨ (values.foldl (widen opt) range).1 ∈ values := by
  induction values generalizing range with
  | nil => exact .inl rfl
  | cons value values hyp =>
    rw [List.foldl_cons]
    rcases hyp (widen opt range value) with kept | later
    · rw [kept, widen]
      split_ifs
      · exact .inr List.mem_cons_self
      · exact .inl rfl
      · exact .inl rfl
    · exact .inr (List.mem_cons_of_mem _ later)

/-- The base is a value of the column, and the width has an entry in the table. -/
theorem deltaGetCmprMeta_spec {colArray : List (Option Datum)}
    (chosen : deltaGetCmprMeta colArray opt = some metaInfo) :
    some metaInfo.minVal ∈ colArray ∧ metaInfo.bytes < numberMaxValueInBytes := by
  unfold deltaGetCmprMeta at chosen
  split at chosen
  · cases chosen
  · rename_i first values found
    dsimp only at chosen
    split_ifs at chosen with wide
    obtain rfl := Option.some.inj chosen
    refine ⟨?_, not_le.mp wide⟩
    rw [← List.reduceOption_mem_iff, found, List.mem_cons]
    exact widen_fold_mem opt values (first, first)

/-- A value that is compressed against a base comes back, and out of the bytes of a difference where there
are any. -/
theorem uncompressOneAttr_of_deltaCompress (based : opt.IsDatum metaInfo.minVal) (valued : opt.IsDatum val)
    (narrow : metaInfo.bytes < numberMaxValueInBytes)
    (accepted : deltaCompress metaInfo opt val = some delta) (rest : List UInt8) :
    uncompressOneAttrDelta metaInfo (some opt) (delta ++ rest) = some (val, delta.length) ∧
      (delta ≠ [] → deltaUncompress metaInfo opt (delta ++ rest) = some val) := by
  obtain ⟨stored, fits⟩ := deltaCompress_eq narrow accepted
  have back := opt.plus_minus valued based
  have width : delta.length = metaInfo.bytes := by rw [stored, length_storeDelta]
  have read : readDelta delta = (opt.minus val metaInfo.minVal).toUInt64 := by
    rw [stored, readDelta_storeDelta fits]
  have restored (wide : metaInfo.bytes ≠ 0) : deltaUncompress metaInfo opt (delta ++ rest) = some val := by
    rw [deltaUncompress_append opt wide width, read, Int64.toInt64_toUInt64, back]
  refine ⟨?_, fun present => restored fun absent => present (List.eq_nil_of_length_eq_zero (width ▸ absent))⟩
  unfold uncompressOneAttrDelta
  split_ifs with absent
  · -- Nothing was stored, so the difference is zero and the value is the base.
    rw [absent, pow_zero, Nat.lt_one_iff] at fits
    have zero : opt.minus val metaInfo.minVal = 0 := by
      have bits : (opt.minus val metaInfo.minVal).toUInt64 = 0 := UInt64.toNat_inj.mp fits
      rw [← Int64.toInt64_toUInt64 (opt.minus val metaInfo.minVal), bits]
      rfl
    have same := opt.plus_minus based based
    rw [opt.minus_self] at same
    rw [zero, same] at back
    rw [back, width, absent]
  · dsimp only
    rw [restored absent, width]
    rfl

/-- Every value that is compressed comes back where the page is read, and out of the bytes of a
difference where there are any. -/
theorem uncompressOneAttr_deltaCompress (opt : NumberTypeOpt) (colArray : List (Option Datum))
    (metaInfo : DeltaCmprMeta) (val : Datum) (delta rest : List UInt8)
    (typed : ∀ value, some value ∈ colArray → opt.IsDatum value) (valued : opt.IsDatum val)
    (chosen : deltaGetCmprMeta colArray opt = some metaInfo)
    (accepted : deltaCompress metaInfo opt val = some delta) :
    uncompressOneAttrDelta metaInfo (some opt) (delta ++ rest) = some (val, delta.length) ∧
      (delta ≠ [] → deltaUncompress metaInfo opt (delta ++ rest) = some val) := by
  obtain ⟨member, narrow⟩ := deltaGetCmprMeta_spec chosen
  exact uncompressOneAttr_of_deltaCompress (typed _ member) valued narrow accepted rest

/-- A page that holds 3 and 200, and a later value that is compressed to one byte. -/
theorem uncompressOneAttr_deltaCompress_sample :
    uncompressOneAttrDelta ⟨3, 200, 1⟩ (some .int32) [97, 9] = some (100, 1) :=
  (uncompressOneAttr_deltaCompress .int32 [some 200, none, some 3] ⟨3, 200, 1⟩ 100 [97] [9] (by
      intro value member
      simp only [List.mem_cons, Option.some.injEq, reduceCtorEq, List.not_mem_nil, false_or,
        or_false] at member
      rcases member with rfl | rfl
      · exact ⟨200, rfl⟩
      · exact ⟨3, rfl⟩)
    ⟨100, rfl⟩ (by decide) (by decide)).1

/-- On a page of equal values nothing is stored, and reading a difference takes the byte that
comes next for one. -/
theorem deltaUncompress_zero_width : deltaGetCmprMeta [some 5, some 5] .int32 = some ⟨5, 5, 0⟩ ∧
      deltaCompress ⟨5, 5, 0⟩ .int32 5 = some [] ∧
      deltaUncompress ⟨5, 5, 0⟩ .int32 ([] ++ [7]) = some 12 ∧
      deltaUncompress ⟨5, 5, 0⟩ .int32 [] = none := by
  refine ⟨by decide, by decide, by decide, by decide⟩

end OpenGauss.PageCompress
