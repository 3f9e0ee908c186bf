import Mathlib.Data.List.TakeDrop
import OpenGauss.CStore.NumericCompress

/-! Writing the encoding of a batch of numerics, `cstore_compress_copy.cpp`. -/

namespace OpenGauss.CStore

open Lib

/-- The flags of one integer type. -/
structure PartFlags where
  existVal : UInt16
  sameVal : UInt16
  sameAscale : UInt16
  withDelta : UInt16
  withRle : UInt16

def numericFlagInt64 : PartFlags := ⟨0x0080, 0x0100, 0x0200, 0x0400, 0x0800⟩

def numericFlagInt32 : PartFlags := ⟨0x0004, 0x0008, 0x0010, 0x0020, 0x0040⟩

def numericFlagExistOthers : UInt16 := 0x0001

def numericFlagOtherWithLz4 : UInt16 := 0x0002

/-- The flags that a step of the header sets and the bytes that it writes. -/
abbrev HeaderPart := UInt16 × List UInt8

section Header

variable (flags : PartFlags) (width : ValSize) (part : IntegerPart) (outArgs : CompressionArg2)

def fillMinval : HeaderPart :=
  if outArgs.modes &&& cuDeltaCompressed ≠ 0 then
    (flags.withDelta, writeInt64 width part.minval ++
      [UInt8.ofNat (deltaGetBytesNum part.minval part.maxval).1])
  else (0, [])

def fillIntegerValues : HeaderPart :=
  if part.valuesAreSame then (flags.sameVal, writeInt64 width part.minval)
  else if outArgs.modes ≠ 0 then
    let delta := fillMinval flags width part outArgs
    let rle := if outArgs.modes &&& cuRLECompressed ≠ 0 then flags.withRle else 0
    (delta.1 ||| rle, delta.2 ++ leBytes 4 outArgs.buf.length)
  else (0, [])

def fillAscale : HeaderPart :=
  if part.ascalesAreSame then (flags.sameAscale, [part.sameAscale]) else (0, [])

def fillIntegerHeader : HeaderPart :=
  if 0 < part.values.length then
    let values := fillIntegerValues flags width part outArgs
    let ascale := fillAscale flags part
    (flags.existVal ||| values.1 ||| ascale.1, values.2 ++ ascale.2)
  else (0, [])

end Header

section Copy

variable (out1 : NumericsStatistics) (out2 : NumericsCmprs)

def fillOtherHeader : HeaderPart :=
  if 0 < out1.failedCnt then
    if out2.otherApplyLz4 then (numericFlagExistOthers ||| numericFlagOtherWithLz4, [])
    else (numericFlagExistOthers, writeInt64 4 out1.failedSize)
  else (0, [])

def numericCompressFillHeader : List UInt8 :=
  let int64 := fillIntegerHeader numericFlagInt64 sizeofInt64 out1.int64 out2.int64OutArgs
  let int32 := fillIntegerHeader numericFlagInt32 sizeofInt32 out1.int32 out2.int32OutArgs
  let other := fillOtherHeader out1 out2
  leBytes 2 (int64.1 ||| int32.1 ||| other.1).toNat ++ writeInt64 4 out1.originalSize ++
    int64.2 ++ int32.2 ++ other.2

def highbit : UInt8 := 0x80

/-- The bytes up to the one in use and the mask of the bit for the last value. -/
def fillBitmapStep (valueIfUnset : UInt8) (filled : List UInt8 × UInt8) (value : UInt8) :
    List UInt8 × UInt8 :=
  let next := if filled.2 ≠ highbit then (filled.1, filled.2 <<< 1) else (filled.1 ++ [0x00], 1)
  if valueIfUnset = value then next
  else (next.1.modify (next.1.length - 1) (· ||| next.2), next.2)

def fillBitmap (values : List UInt8) (valueIfUnset : UInt8) : List UInt8 :=
  (values.foldl (fillBitmapStep valueIfUnset) ([], highbit)).1

/-- 2 bits each -/
def dscalePack (value0 value1 value2 value3 : UInt8) : UInt8 :=
  value0 <<< 6 ||| value1 <<< 4 ||| value2 <<< 2 ||| value3

/-- A group of four after the other, then what remains; a code that is not there leaves its bits
unset. -/
def compactDscaleCodesBy2Bits : List UInt8 → List UInt8
  | v0 :: v1 :: v2 :: v3 :: inValues =>
    dscalePack v0 v1 v2 v3 :: compactDscaleCodesBy2Bits inValues
  | [v0, v1, v2] => [dscalePack v0 v1 v2 0]
  | [v0, v1] => [dscalePack v0 v1 0 0]
  | [v0] => [dscalePack v0 0 0 0]
  | [] => []

def numericCompressFillDscales : List UInt8 :=
  if out1.failedCnt = 0 then
    if out1.int64.values.length = 0 then []
    else if out1.int32.values.length = 0 then []
    else fillBitmap out1.ascaleCodes int64DscaleEncoding
  else if out1.int32.values.length = 0 then fillBitmap out1.ascaleCodes int64DscaleEncoding
  else if out1.int64.values.length = 0 then fillBitmap out1.ascaleCodes int32DscaleEncoding
  else compactDscaleCodesBy2Bits out1.ascaleCodes

/-- `memcpy_s` of `count` bytes; what stands behind the source is not known and counts as 0. -/
def memcpyS (count : Nat) (source : List UInt8) : List UInt8 := source.takeD count 0

def fillIntegers (width : ValSize) (part : IntegerPart) (outArgs : CompressionArg2) : List UInt8 :=
  if 0 < part.values.length ∧ part.minval ≠ part.maxval then
    if outArgs.modes ≠ 0 then memcpyS outArgs.buf.length outArgs.buf
    else memcpyS (width * part.values.length) (part.bytes width)
  else []

def fillOthers : List UInt8 :=
  if 0 < out1.failedCnt then
    if out2.otherApplyLz4 then memcpyS out2.otherOutbuf.length out2.otherOutbuf
    else memcpyS out1.failedSize.toNat out2.otherSrcbuf
  else []

def numericCompressFillValues : List UInt8 :=
  fillIntegers sizeofInt64 out1.int64 out2.int64OutArgs ++
    fillIntegers sizeofInt32 out1.int32 out2.int32OutArgs ++ fillOthers out1 out2

def numericCopyCompressedBatchValues : List UInt8 :=
  numericCompressFillHeader out1 out2 ++ numericCompressFillDscales out1 ++
    numericCompressFillValues out1 out2

end Copy

@[simp] theorem length_writeInt64 (width : Nat) (data : Int) : (writeInt64 width data).length = width :=
  length_leBytes _ _

@[simp] theorem length_memcpyS (count : Nat) (source : List UInt8) : (memcpyS count source).length = count :=
  List.takeD_length _ _ _

/-- The least value with its width and the compressed size, or the one value there is; then the
scale. -/
theorem length_fillIntegerHeader_le (flags : PartFlags) (width : ValSize) (part : IntegerPart)
    (outArgs : CompressionArg2) :
    (fillIntegerHeader flags width part outArgs).2.length ≤ width + 6 := by
  have minval : (fillMinval flags width part outArgs).2.length ≤ width + 1 := by
    unfold fillMinval
    split
    · simp
    · exact Nat.zero_le _
  have values : (fillIntegerValues flags width part outArgs).2.length ≤ width + 5 := by
    unfold fillIntegerValues
    split
    · simp
    · split
      · simp only [List.length_append, length_leBytes]
        omega
      · exact Nat.zero_le _
  have ascale : (fillAscale flags part).2.length ≤ 1 := by
    unfold fillAscale
    split
    · exact le_rfl
    · exact Nat.zero_le _
  unfold fillIntegerHeader
  split
  · simp only [List.length_append]
    omega
  · exact Nat.zero_le _

theorem length_numericCompressFillHeader_le (out1 : NumericsStatistics) (out2 : NumericsCmprs) :
    (numericCompressFillHeader out1 out2).length ≤ 34 := by
  have int64 : (fillIntegerHeader numericFlagInt64 sizeofInt64 out1.int64 out2.int64OutArgs).2.length ≤ 14 :=
    length_fillIntegerHeader_le _ _ _ _
  have int32 : (fillIntegerHeader numericFlagInt32 sizeofInt32 out1.int32 out2.int32OutArgs).2.length ≤ 10 :=
    length_fillIntegerHeader_le _ _ _ _
  have other : (fillOtherHeader out1 out2).2.length ≤ 4 := by
    unfold fillOtherHeader
    split
    · split
      · exact Nat.zero_le _
      · simp
    · exact Nat.zero_le _
  simp only [numericCompressFillHeader, List.length_append, length_leBytes, length_writeInt64]
  omega

/-- The bitmap covers `count` values, the last of them at a bit of its last byte. -/
def BitmapFilled (count : Nat) (filled : List UInt8 × UInt8) : Prop :=
  ∃ bit < 8, filled.2 = UInt8.ofNat (2 ^ bit) ∧ 8 * filled.1.length = count + (7 - bit)

variable {count : Nat} {filled : List UInt8 × UInt8} {out1 : NumericsStatistics}

theorem BitmapFilled.step (before : BitmapFilled count filled) (valueIfUnset value : UInt8) :
    BitmapFilled (count + 1) (fillBitmapStep valueIfUnset filled value) := by
  have next : BitmapFilled (count + 1)
      (if filled.2 ≠ highbit then (filled.1, filled.2 <<< 1) else (filled.1 ++ [0x00], 1)) := by
    obtain ⟨bit, inside, mask, length⟩ := before
    by_cases last : bit = 7
    · subst last
      rw [if_neg (by rw [mask]; decide)]
      refine ⟨0, by decide, rfl, ?_⟩
      rw [List.length_append, List.length_singleton]
      omega
    · have shifted : UInt8.ofNat (2 ^ bit) ≠ highbit ∧
          UInt8.ofNat (2 ^ bit) <<< 1 = UInt8.ofNat (2 ^ (bit + 1)) := by
        have below : bit < 7 := by omega
        clear mask length inside last
        interval_cases bit <;> decide
      rw [← mask] at shifted
      rw [if_pos shifted.1]
      exact ⟨bit + 1, by omega, shifted.2, by dsimp only; omega⟩
  unfold fillBitmapStep
  dsimp only
  split
  · exact next
  · obtain ⟨bit, inside, mask, length⟩ := next
    exact ⟨bit, inside, mask, by rw [List.length_modify, length]⟩

theorem bitmapFilled_foldl (before : BitmapFilled count filled) (valueIfUnset : UInt8) (values : List UInt8) :
    BitmapFilled (count + values.length) (values.foldl (fillBitmapStep valueIfUnset) filled) := by
  induction values generalizing count filled with
  | nil => exact before
  | cons value values ih =>
    rw [List.length_cons, Nat.add_comm values.length, ← Nat.add_assoc]
    exact ih (before.step valueIfUnset value)

/-- `BITMAPLEN` is by how much the caller of `FillBitmap` moves on. -/
theorem length_fillBitmap (values : List UInt8) (valueIfUnset : UInt8) :
    (fillBitmap values valueIfUnset).length = (values.length + 7) / 8 := by
  have start : BitmapFilled 0 ([], highbit) := ⟨7, by decide, rfl, rfl⟩
  obtain ⟨bit, inside, -, length⟩ := bitmapFilled_foldl start valueIfUnset values
  rw [fillBitmap]
  omega

theorem length_compactDscaleCodesBy2Bits (inValues : List UInt8) :
    (compactDscaleCodesBy2Bits inValues).length = (inValues.length + 3) / 4 := by
  fun_induction compactDscaleCodesBy2Bits inValues with
  | case1 v0 v1 v2 v3 inValues ih =>
    simp only [List.length_cons, ih]
    omega
  | _ => simp

theorem length_numericCompressFillDscales_le (out1 : NumericsStatistics) :
    (numericCompressFillDscales out1).length ≤ (out1.nNotnull + 1) / 2 := by
  have bitmap (encoding : UInt8) :
      (fillBitmap out1.ascaleCodes encoding).length ≤ (out1.nNotnull + 1) / 2 := by
    rw [length_fillBitmap, NumericsStatistics.nNotnull]
    omega
  unfold numericCompressFillDscales
  split_ifs
  · exact Nat.zero_le _
  · exact Nat.zero_le _
  · exact bitmap _
  · exact bitmap _
  · exact bitmap _
  · rw [length_compactDscaleCodesBy2Bits, NumericsStatistics.nNotnull]
    omega

theorem length_fillIntegers_le (width : ValSize) (part : IntegerPart) (outArgs : CompressionArg2) :
    (fillIntegers width part outArgs).length ≤ integerPartSize width part outArgs := by
  unfold fillIntegers integerPartSize
  split
  · split
    · rw [length_memcpyS]
    · rw [length_memcpyS]
  · exact Nat.zero_le _

theorem length_fillOthers (out2 : NumericsCmprs) (known : 0 ≤ out1.failedSize) :
    ((fillOthers out1 out2).length : Int) = otherSize out1 out2 := by
  unfold fillOthers otherSize
  split
  · split
    · rw [length_memcpyS]
    · rw [length_memcpyS, Int.toNat_of_nonneg known]
  · rfl

theorem IntegerPart.bytes_eq (part : IntegerPart) (width : ValSize) : part.bytes width =
      leWords width (part.values.map fun value => (value % 256 ^ width.1).toNat) := by
  have power : (0 : Int) < 256 ^ width.1 := by positivity
  rw [IntegerPart.bytes, leWords, List.flatMap_map]
  refine List.flatMap_congr fun value _ => writeInt64_eq width.2.2 ?_
  rw [Int.toNat_of_nonneg (Int.emod_nonneg _ power.ne')]
  exact (Int.mod_modEq _ _).symm

/-- A part does not ask for more than its values take as they are. -/
theorem integerPartSize_le (width : ValSize) (adoptRle : Bool) (part : IntegerPart) :
    integerPartSize width part (compressIntegerPart width adoptRle part) ≤ width * part.values.length := by
  unfold integerPartSize
  split
  · unfold compressIntegerPart
    split
    · rename_i several
      have nonempty : part.values.map (fun value => (value % 256 ^ width.1).toNat) ≠ [] := by
        simpa using List.length_pos_iff.mp several.1
      have fits : ∀ word ∈ part.values.map (fun value => (value % 256 ^ width.1).toNat),
          word < 256 ^ width.1 := by
        intro word member
        obtain ⟨value, _, rfl⟩ := List.mem_map.mp member
        have power : (0 : Int) < 256 ^ width.1 := by positivity
        have low := Int.emod_nonneg value power.ne'
        have high := Int.emod_lt_of_pos value power
        zify
        rwa [Int.toNat_of_nonneg low]
      have compressed := DeltaPlusRLEv2.length_compress_le
        ⟨part.minval, part.maxval, width, adoptRle⟩ nonempty fits
      rw [List.length_map, Nat.mul_comm] at compressed
      rw [part.bytes_eq width]
      exact compressed
    · exact Nat.zero_le _
  · exact le_rfl

/-- What is written, part by part, against what the size counts for the part. -/
theorem length_numericCopyCompressedBatchValues (out2 : NumericsCmprs) (known : 0 ≤ out1.failedSize) :
    ((numericCopyCompressedBatchValues out1 out2).length : Int) ≤ 34 + ((out1.nNotnull + 1) / 2 : Nat) +
        integerPartSize sizeofInt64 out1.int64 out2.int64OutArgs +
        integerPartSize sizeofInt32 out1.int32 out2.int32OutArgs + otherSize out1 out2 := by
  have header := length_numericCompressFillHeader_le out1 out2
  have codes := length_numericCompressFillDscales_le out1
  have int64 := length_fillIntegers_le sizeofInt64 out1.int64 out2.int64OutArgs
  have int32 := length_fillIntegers_le sizeofInt32 out1.int32 out2.int32OutArgs
  have others := length_fillOthers out2 known
  rw [← others]
  simp only [numericCopyCompressedBatchValues, numericCompressFillValues, List.length_append]
  omega

section Batch

variable {convert : NumericDatum → Option (Int × UInt8)} {libs : CompressLibs} {filter : NumericFilter}

theorem outArgs_numericCompressEachValuesPart (out1 : NumericsStatistics)
    (values : List (Option NumericDatum)) :
    let out2 := numericCompressEachValuesPart convert libs filter out1 values
    out2.int64OutArgs = compressIntegerPart sizeofInt64 filter.adoptNumeric2intInt64Rle out1.int64 ∧
      out2.int32OutArgs = compressIntegerPart sizeofInt32 filter.adoptNumeric2intInt32Rle out1.int32 := by
  unfold numericCompressEachValuesPart
  dsimp only
  split
  · exact ⟨rfl, rfl⟩
  · exact ⟨rfl, rfl⟩

theorem otherSize_between {out1 : NumericsStatistics} (known : 0 ≤ out1.failedSize)
    (values : List (Option NumericDatum)) :
    let out2 := numericCompressEachValuesPart convert libs filter out1 values
    0 ≤ otherSize out1 out2 ∧ otherSize out1 out2 ≤ out1.failedSize := by
  unfold otherSize numericCompressEachValuesPart
  dsimp only
  split
  · simp only [decide_eq_true_eq]
    split
    · rename_i smaller
      exact ⟨Int.natCast_nonneg _, smaller.2.le⟩
    · exact ⟨known, le_rfl⟩
  · exact ⟨le_rfl, known⟩

/-- The additions to the size, of which only the last result counts. -/
theorem numericCompressGetTotalSize_eq (out1 : NumericsStatistics) (out2 : NumericsCmprs) (alignSize : Nat) :
    numericCompressGetTotalSize out1 out2 alignSize =
      wrapInt32 (44 + alignSize + ((out1.nNotnull + 1) / 2 : Nat) +
        integerPartSize sizeofInt64 out1.int64 out2.int64OutArgs +
        integerPartSize sizeofInt32 out1.int32 out2.int32OutArgs + otherSize out1 out2) := by
  unfold numericCompressGetTotalSize
  simp only [wrapInt32_add, numericFlagSize, Nat.shiftRight_one]
  congr 1
  push_cast
  ring

/-- `ALIGNOF_CUSIZE`, with which the only caller asks for the size. -/
def alignofCusize : Nat := 8192

/-- The size computed holds everything that is written, and the padding behind it. -/
theorem length_numericCopyCompressedBatchValues_le
    (convert : NumericDatum → Option (Int × UInt8)) (libs : CompressLibs) (filter : NumericFilter)
    (batch : BatchNumeric) (out1 : NumericsStatistics) (out2 : NumericsCmprs) (totalSize : Int)
    (compressed : numericCompressBatchValues convert libs filter batch alignofCusize =
      some (out1, out2, totalSize)) :
    (numericCopyCompressedBatchValues out1 out2).length + alignofCusize ≤ totalSize := by
  unfold numericCompressBatchValues at compressed
  dsimp only at compressed
  split at compressed
  · cases compressed
  · rename_i enough
    have notNull := length_eq_notNulls_add batch.values
    rw [notNull, Nat.add_sub_cancel_right, not_or] at enough
    obtain ⟨counts, few, integers, rows⟩ := counts_numericStatistics enough.2
    obtain ⟨rfl, rfl, rfl⟩ : numericStatistics convert batch.values = out1 ∧ _ = out2 ∧ _ := by
      simpa using compressed
    generalize numericStatistics convert batch.values = out1 at *
    have known : 0 ≤ out1.failedSize := by
      rw [counts.failed]
      exact Int.natCast_nonneg _
    obtain ⟨low, high⟩ := @otherSize_between convert libs filter out1 known batch.values
    obtain ⟨args64, args32⟩ :=
      @outArgs_numericCompressEachValuesPart convert libs filter out1 batch.values
    generalize numericCompressEachValuesPart convert libs filter out1 batch.values = out2 at *
    have int64 : integerPartSize sizeofInt64 out1.int64 out2.int64OutArgs ≤
        8 * out1.int64.values.length := by
      rw [args64]
      exact integerPartSize_le _ _ _
    have int32 : integerPartSize sizeofInt32 out1.int32 out2.int32OutArgs ≤
        4 * out1.int32.values.length := by
      rw [args32]
      exact integerPartSize_le _ _ _
    have written := length_numericCopyCompressedBatchValues out2 known
    obtain ⟨codes, parts, failed⟩ := counts
    -- even the values that fail do not fill an `int`
    have most : maxBatchRows / 5 * numericMaxSize < 1600000000 := by decide
    simp only [maxBatchRows] at rows integers
    rw [numericCompressGetTotalSize_eq, wrapInt32_eq]
    · simp only [alignofCusize]
      omega
    · omega
    · simp only [alignofCusize]
      omega

/-- The numerics 7 and 10000000000, and one that is not a number. -/
def sampleSeven : NumericDatum :=
  ⟨⟨[11, 0x00, 0x80, 7, 0], by decide, by simp [varsizeAny]⟩, by decide⟩

def sampleLarge : NumericDatum :=
  ⟨⟨[11, 0x02, 0x80, 100, 0], by decide, by simp [varsizeAny]⟩, by decide⟩

def sampleNan : NumericDatum := ⟨⟨[7, 0x00, 0xC0], by decide, by simp [varsizeAny]⟩, by decide⟩

def sampleConvert (datum : NumericDatum) : Option (Int × UInt8) :=
  if datum.bytes = sampleSeven.bytes then some (7, 0)
  else if datum.bytes = sampleLarge.bytes then some (10000000000, 0)
  else none

def sampleNumerics : BatchNumeric :=
  ⟨[some sampleSeven, some sampleSeven, none, some sampleNan, some sampleLarge, some sampleSeven,
    some sampleSeven], by decide⟩

def sampleOut1 : NumericsStatistics := numericStatistics sampleConvert sampleNumerics.values

def sampleOut2 : NumericsCmprs :=
  numericCompressEachValuesPart sampleConvert IntegerCoder.sampleLibs ⟨true, true⟩ sampleOut1
    sampleNumerics.values

theorem length_numericCopyCompressedBatchValues_le_sample :
    (numericCopyCompressedBatchValues sampleOut1 sampleOut2).length + (alignofCusize : Int) ≤
      8266 := by
  have size : numericCompressGetTotalSize sampleOut1 sampleOut2 alignofCusize = 8266 := by
    decide +kernel
  refine length_numericCopyCompressedBatchValues_le sampleConvert IntegerCoder.sampleLibs
    ⟨true, true⟩ sampleNumerics sampleOut1 sampleOut2 8266 ?_
  rw [numericCompressBatchValues, if_neg (by decide), ← size]
  rfl

end Batch

end OpenGauss.CStore
