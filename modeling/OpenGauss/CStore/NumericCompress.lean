import OpenGauss.CStore.CUData

/-! The encoding of a batch of numerics, `NumericCompressBatchValues` of `cstore_compress.cpp`. The
conversion to an integer and a scale is a parameter. -/

namespace OpenGauss.CStore

open Lib SelfSized

def RleCoder.v2 (oneValSize : ValSize) : RleCoder :=
  { RleCoder.v1 oneValSize with minRepeats := rleMinRepeatsV2.getD oneValSize 0 }

structure DeltaPlusRLEv2 where
  minVal : Int
  maxVal : Int
  valueBytes : ValSize
  adoptRle : Bool

namespace DeltaPlusRLEv2

variable (coder : DeltaPlusRLEv2)

/-- `m_deltaBytes` as `GetBound` leaves it. -/
def deltaBytes : ValSize :=
  let dltBytes := deltaGetBytesNum coder.minVal coder.maxVal
  if dltBytes < coder.valueBytes then dltBytes else coder.valueBytes

/-- The runs of `inbuf` under the modes so far, or what is left when they are not adopted or not
smaller. -/
def rleOr (oneValSize : ValSize) (inbuf : List UInt8) (modes : UInt16) (left : CompressionArg2) :
    CompressionArg2 :=
  if coder.adoptRle then
    let cmpr := (RleCoder.v2 oneValSize).innerCompress inbuf
    if 0 < cmpr.length ∧ cmpr.length < inbuf.length then ⟨cmpr, modes ||| cuRLECompressed⟩
    else left
  else left

/-- The size returned is that of `buf`. -/
def compress (inbuf : List UInt8) : CompressionArg2 :=
  if coder.deltaBytes < coder.valueBytes then
    let delta := (DeltaCoder.forCompress coder.minVal coder.maxVal).compress inbuf coder.valueBytes
    coder.rleOr coder.deltaBytes delta cuDeltaCompressed ⟨delta, cuDeltaCompressed⟩
  else coder.rleOr coder.valueBytes inbuf 0 ⟨[], 0⟩

theorem length_rleOr_le {oneValSize : ValSize} {inbuf : List UInt8} {modes : UInt16}
    {left : CompressionArg2} (small : left.buf.length ≤ inbuf.length) :
    (coder.rleOr oneValSize inbuf modes left).buf.length ≤ inbuf.length := by
  unfold rleOr
  dsimp only
  split
  · split
    · rename_i smaller
      exact smaller.2.le
    · exact small
  · exact small

/-- Compression does not make the values longer. -/
theorem length_compress_le {words : List Nat} (nonempty : words ≠ [])
    (fits : ∀ word ∈ words, word < 256 ^ coder.valueBytes.1) :
    (coder.compress (leWords coder.valueBytes words)).buf.length ≤ words.length * coder.valueBytes := by
  unfold compress
  split
  · rename_i narrow
    have outSize : coder.deltaBytes = deltaGetBytesNum coder.minVal coder.maxVal := by
      unfold deltaBytes at narrow ⊢
      dsimp only at narrow ⊢
      split
      · rfl
      · rename_i wide
        rw [if_neg wide] at narrow
        exact absurd narrow (lt_irrefl _)
    have delta : ((DeltaCoder.forCompress coder.minVal coder.maxVal).compress
        (leWords coder.valueBytes words) coder.valueBytes).length = words.length * coder.deltaBytes := by
      rw [outSize, DeltaCoder.compress, doDeltaOperation_leWords nonempty fits fun _ _ => rfl,
        length_leWords, List.length_map]
      rfl
    refine (coder.length_rleOr_le le_rfl).trans ?_
    rw [delta]
    exact Nat.mul_le_mul_left _ (le_of_lt narrow)
  · refine (coder.length_rleOr_le (Nat.zero_le _)).trans ?_
    rw [length_leWords]

end DeltaPlusRLEv2

def numericHdrsz : Nat := 8

def numeric64sz : Nat := 14

/-- The weight of a numeric has sixteen bits and its scale fourteen, so that it does not have more
than `2 ^ 16` digits. -/
def numericMaxSize : Nat := numericHdrsz + 2 * 2 ^ 16

structure NumericDatum extends SelfSized varsizeAny where
  small : bytes.length ≤ numericMaxSize

structure BatchNumeric where
  values : List (Option NumericDatum)
  few : values.length ≤ maxBatchRows

def wrapInt32 (value : Int) : Int := value.bmod (2 ^ 32)

theorem wrapInt32_eq {value : Int} (low : 0 ≤ value) (high : value < 2 ^ 31) : wrapInt32 value = value := by
  apply Int.bmod_eq_of_le_mul_two
  · norm_num
    omega
  · norm_num
    omega

theorem wrapInt32_add (left right : Int) : wrapInt32 (wrapInt32 left + right) = wrapInt32 (left + right) :=
  Int.bmod_add_bmod

def int32MinValue : Int := -2 ^ 31

def int32MaxValue : Int := 2 ^ 31 - 1

def numericDscaleEncoding : UInt8 := 0

def int32DscaleEncoding : UInt8 := 1

def int64DscaleEncoding : UInt8 := 2

structure IntegerPart where
  values : List Int
  minval : Int
  maxval : Int
  ascalesAreSame : Bool
  sameAscale : UInt8

namespace IntegerPart

def empty : IntegerPart := ⟨[], 0, 0, true, 0⟩

def add (part : IntegerPart) (thisValue : Int) (thisScale : UInt8) : IntegerPart :=
  if 0 < part.values.length then
    let (minval, maxval) := minMaxStep (part.minval, part.maxval) thisValue
    { part with values := part.values ++ [thisValue], minval := minval, maxval := maxval }
  else
    { part with
      values := part.values ++ [thisValue]
      minval := thisValue
      maxval := thisValue
      sameAscale := thisScale }

@[simp] theorem values_add (part : IntegerPart) (thisValue : Int) (thisScale : UInt8) :
    (part.add thisValue thisScale).values = part.values ++ [thisValue] := by
  unfold add
  split <;> rfl

def valuesAreSame (part : IntegerPart) : Bool :=
  0 < part.values.length ∧ part.minval = part.maxval

def bytes (part : IntegerPart) (width : ValSize) : List UInt8 :=
  part.values.flatMap (writeInt64 width)

end IntegerPart

structure NumericsStatistics where
  ascaleCodes : List UInt8
  int64 : IntegerPart
  int32 : IntegerPart
  failedSize : Int
  origTotalSize : Int

namespace NumericsStatistics

def empty : NumericsStatistics := ⟨[], .empty, .empty, 0, 0⟩

variable (stat : NumericsStatistics)

/-- There is a code for every value that is not null. -/
def nNotnull : Nat := stat.ascaleCodes.length

def failedCnt : Nat := stat.nNotnull - stat.int32.values.length - stat.int64.values.length

def originalSize : Int := wrapInt32 (stat.origTotalSize + stat.failedSize)

end NumericsStatistics

section Batch

variable (convert : NumericDatum → Option (Int × UInt8))

/-- One pass of the loop. The variant for batches without a failed value differs in not looking
whether the conversion succeeded. -/
def numericStatisticsStep (stat : NumericsStatistics) : Option NumericDatum → NumericsStatistics
  | none => stat
  | some srcValue =>
    match convert srcValue with
    | some (thisValue, thisScale) =>
      let origTotalSize := wrapInt32 (stat.origTotalSize + numeric64sz)
      if int32MinValue ≤ thisValue ∧ thisValue ≤ int32MaxValue then
        { stat with
          int32 := stat.int32.add thisValue thisScale
          ascaleCodes := stat.ascaleCodes ++ [int32DscaleEncoding]
          origTotalSize := origTotalSize }
      else
        { stat with
          int64 := stat.int64.add thisValue thisScale
          ascaleCodes := stat.ascaleCodes ++ [int64DscaleEncoding]
          origTotalSize := origTotalSize }
    | none =>
      { stat with
        failedSize := wrapInt32 (stat.failedSize + varsizeAny srcValue.bytes)
        ascaleCodes := stat.ascaleCodes ++ [numericDscaleEncoding] }

variable (values : List (Option NumericDatum))

def numericStatistics : NumericsStatistics :=
  values.foldl (numericStatisticsStep convert) .empty

structure NumericFilter where
  adoptNumeric2intInt64Rle : Bool
  adoptNumeric2intInt32Rle : Bool

/-- The sizes compressed are those of the buffers, where a part that is not compressed has none. -/
structure NumericsCmprs where
  int64OutArgs : CompressionArg2
  int32OutArgs : CompressionArg2
  otherSrcbuf : List UInt8
  otherOutbuf : List UInt8
  otherApplyLz4 : Bool

def compressIntegerPart (width : ValSize) (adoptRle : Bool) (part : IntegerPart) : CompressionArg2 :=
  if 0 < part.values.length ∧ part.minval ≠ part.maxval then
    (DeltaPlusRLEv2.mk part.minval part.maxval width adoptRle).compress (part.bytes width)
  else ⟨[], 0⟩

def sizeofInt64 : ValSize := int64Size.1

def sizeofInt32 : ValSize := int32Size.1

def failedBytes : List UInt8 :=
  values.flatMap fun value =>
    match value with
    | none => []
    | some srcValue => if (convert srcValue).isSome then [] else srcValue.bytes

variable (libs : CompressLibs) (filter : NumericFilter)

def numericCompressEachValuesPart (out1 : NumericsStatistics)
    (values : List (Option NumericDatum)) : NumericsCmprs :=
  let int64OutArgs := compressIntegerPart sizeofInt64 filter.adoptNumeric2intInt64Rle out1.int64
  let int32OutArgs := compressIntegerPart sizeofInt32 filter.adoptNumeric2intInt32Rle out1.int32
  if 0 < out1.failedCnt then
    let otherSrcbuf := failedBytes convert values
    let otherOutbuf := (lz4Compress libs (compresslevelTables .low ⟨0, level_pos⟩) otherSrcbuf).getD []
    let otherApplyLz4 := 0 < otherOutbuf.length ∧ (otherOutbuf.length : Int) < out1.failedSize
    ⟨int64OutArgs, int32OutArgs, otherSrcbuf, otherOutbuf, otherApplyLz4⟩
  else ⟨int64OutArgs, int32OutArgs, [], [], false⟩

def numericFlagSize : Nat := 2

def integerPartSize (width : ValSize) (part : IntegerPart) (outArgs : CompressionArg2) : Nat :=
  if outArgs.modes ≠ 0 then outArgs.buf.length else width * part.values.length

def otherSize (out1 : NumericsStatistics) (out2 : NumericsCmprs) : Int :=
  if 0 < out1.failedCnt then
    if out2.otherApplyLz4 then out2.otherOutbuf.length else out1.failedSize
  else 0

def numericCompressGetTotalSize (out1 : NumericsStatistics) (out2 : NumericsCmprs) (alignSize : Nat) : Int :=
  let totalSize := wrapInt32 (numericFlagSize  -- head flags info
    + alignSize  -- extra for padding
    + 4  -- original size info
    + 8 * 2  -- the same int64 value or min/max values
    + 4  -- int64 compressed size
    + 1  -- the same int64 scale
    + 4 * 2  -- the same int32 value or min/max values
    + 4  -- int32 compressed size
    + 1  -- the same int32 scale
    + 4  -- failed size
    + ((out1.nNotnull + 1) >>> 1 : Nat))  -- status collection
  let totalSize := wrapInt32 (totalSize + integerPartSize sizeofInt64 out1.int64 out2.int64OutArgs)
  let totalSize := wrapInt32 (totalSize + integerPartSize sizeofInt32 out1.int32 out2.int32OutArgs)
  wrapInt32 (totalSize + otherSize out1 out2)

def numericDefaultFailedRatio : Nat := 20

/-- Nothing calls `NumericConfigFailedRatio`. -/
def numericMaxFailedRatio : Nat := numericDefaultFailedRatio

def converted (value : Option NumericDatum) : Bool := (value.bind convert).isSome

/-- The statistics, the compressed parts and the size needed; `none` where too many values fail. -/
def numericCompressBatchValues (batch : BatchNumeric) (alignSize : Nat) :
    Option (NumericsStatistics × NumericsCmprs × Int) :=
  let nSuccess := batch.values.countP (converted convert)
  let nullCount := batch.values.countP Option.isNone
  -- the product by 0.01 is exact where it is an integer
  if nSuccess = 0 ∨
      nSuccess * 100 < (batch.values.length - nullCount) * (100 - numericMaxFailedRatio) then none
  else
    let out1 := numericStatistics convert batch.values
    let out2 := numericCompressEachValuesPart convert libs filter out1 batch.values
    some (out1, out2, numericCompressGetTotalSize out1 out2 alignSize)

variable {convert}

def notNulls : Nat := values.countP Option.isSome

/-- What is kept of the values in a state of the loop. -/
structure NumericsStatistics.Counts (stat : NumericsStatistics) (known integers failed : Nat) : Prop where
  known : stat.nNotnull = known
  integers : stat.int64.values.length + stat.int32.values.length = integers
  failed : stat.failedSize = failed

section

variable {stat : NumericsStatistics} {known integers failed : Nat}
  (counts : stat.Counts known integers failed) {srcValue : NumericDatum}

include counts

theorem numericStatisticsStep_converted (success : (convert srcValue).isSome) :
    (numericStatisticsStep convert stat (some srcValue)).Counts (known + 1) (integers + 1)
      failed := by
  obtain ⟨⟨thisValue, thisScale⟩, found⟩ := Option.isSome_iff_exists.mp success
  obtain ⟨codes, integers, size⟩ := counts
  rw [NumericsStatistics.nNotnull] at codes
  simp only [numericStatisticsStep, found]
  split
  · refine ⟨?_, ?_, size⟩
    · simp [NumericsStatistics.nNotnull, codes]
    · simp only [IntegerPart.values_add, List.length_append, List.length_singleton]
      omega
  · refine ⟨?_, ?_, size⟩
    · simp [NumericsStatistics.nNotnull, codes]
    · simp only [IntegerPart.values_add, List.length_append, List.length_singleton]
      omega

theorem numericStatisticsStep_failed
    (fails : convert srcValue = none) (bound : failed + srcValue.bytes.length < 2 ^ 31) :
    (numericStatisticsStep convert stat (some srcValue)).Counts (known + 1) integers
      (failed + srcValue.bytes.length) := by
  obtain ⟨codes, integers, size⟩ := counts
  rw [NumericsStatistics.nNotnull] at codes
  have varsize : varsizeAny srcValue.bytes = srcValue.bytes.length := by
    simpa using srcValue.sized []
  simp only [numericStatisticsStep, fails]
  refine ⟨by simp [NumericsStatistics.nNotnull, codes], integers, ?_⟩
  rw [size, varsize, wrapInt32_eq (by omega) (by omega)]
  push_cast
  rfl

end

variable (values : List (Option NumericDatum))

@[simp] theorem notNulls_null :
    notNulls (none :: values) = notNulls values := by
  simp [notNulls]

@[simp] theorem notNulls_some (srcValue : NumericDatum) (values : List (Option NumericDatum)) :
    notNulls (some srcValue :: values) = 1 + notNulls values := by
  simp [notNulls, Nat.add_comm]

@[simp] theorem failedBytes_null :
    failedBytes convert (none :: values) = failedBytes convert values :=
  rfl

@[simp] theorem failedBytes_some (srcValue : NumericDatum) (values : List (Option NumericDatum)) :
    failedBytes convert (some srcValue :: values) =
      (if (convert srcValue).isSome then [] else srcValue.bytes) ++ failedBytes convert values :=
  rfl

@[simp] theorem countP_converted_null :
    (none :: values).countP (converted convert) = values.countP (converted convert) := by
  simp [converted]

@[simp] theorem countP_converted_some (srcValue : NumericDatum) (values : List (Option NumericDatum)) :
    (some srcValue :: values).countP (converted convert) =
      (if (convert srcValue).isSome then 1 else 0) + values.countP (converted convert) := by
  rw [List.countP_cons, Nat.add_comm]
  rfl

theorem counts_foldl {stat : NumericsStatistics} {known integers failed : Nat}
    (counts : stat.Counts known integers failed) {values : List (Option NumericDatum)}
    (bound : failed + (failedBytes convert values).length < 2 ^ 31) :
    (values.foldl (numericStatisticsStep convert) stat).Counts (known + notNulls values)
      (integers + values.countP (converted convert))
      (failed + (failedBytes convert values).length) := by
  induction values generalizing stat known integers failed with
  | nil => exact counts
  | cons value values ih =>
    cases value with
    | none =>
      rw [failedBytes_null] at bound
      rw [notNulls_null, countP_converted_null, failedBytes_null]
      exact ih counts bound
    | some srcValue =>
      rw [notNulls_some, countP_converted_some, failedBytes_some] at *
      rw [List.length_append] at *
      cases found : convert srcValue with
      | none =>
        simp only [found, Option.isSome_none, Bool.false_eq_true, if_false] at bound ⊢
        rw [← Nat.add_assoc failed] at bound ⊢
        rw [← Nat.add_assoc known, Nat.zero_add]
        exact ih (numericStatisticsStep_failed counts found (by omega)) bound
      | some result =>
        have success : (convert srcValue).isSome := by rw [found]; rfl
        simp only [found, Option.isSome_some, if_true, List.length_nil] at bound ⊢
        rw [Nat.zero_add] at bound ⊢
        rw [← Nat.add_assoc known, ← Nat.add_assoc integers]
        exact ih (numericStatisticsStep_converted counts success) bound

/-- Every value that is neither null nor converted takes a bounded number of bytes. -/
theorem length_failedBytes_le {limit : Nat} {values : List (Option NumericDatum)}
    (small : ∀ srcValue, some srcValue ∈ values → srcValue.bytes.length ≤ limit) :
    (failedBytes convert values).length + values.countP (converted convert) * limit ≤
      notNulls values * limit := by
  induction values with
  | nil => simp [failedBytes, notNulls]
  | cons value values ih =>
    have rest := ih fun srcValue member => small srcValue (List.mem_cons_of_mem _ member)
    cases value with
    | none => simpa using rest
    | some srcValue =>
      have first := small srcValue List.mem_cons_self
      rw [notNulls_some, countP_converted_some, failedBytes_some, List.length_append,
        Nat.add_mul, Nat.add_mul, Nat.one_mul]
      cases found : convert srcValue with
      | none =>
        simp only [Option.isSome_none, Bool.false_eq_true, if_false, Nat.zero_mul]
        omega
      | some result =>
        simp only [Option.isSome_some, if_true, List.length_nil, Nat.one_mul]
        omega

theorem length_eq_notNulls_add :
    values.length = notNulls values + values.countP Option.isNone := by
  rw [notNulls, List.length_eq_countP_add_countP Option.isSome]
  congr 2
  funext value
  cases value <;> rfl

/-- A batch that is compressed, with at most one value in five that fails. -/
theorem counts_numericStatistics {batch : BatchNumeric}
    (enough : ¬ batch.values.countP (converted convert) * 100 <
      notNulls batch.values * (100 - numericMaxFailedRatio)) :
    (numericStatistics convert batch.values).Counts (notNulls batch.values)
        (batch.values.countP (converted convert)) (failedBytes convert batch.values).length ∧
      (failedBytes convert batch.values).length ≤ maxBatchRows / 5 * numericMaxSize ∧
      batch.values.countP (converted convert) ≤ maxBatchRows ∧
      notNulls batch.values ≤ maxBatchRows := by
  have bytes := @length_failedBytes_le convert numericMaxSize batch.values fun srcValue _ => srcValue.small
  have rows := length_eq_notNulls_add batch.values
  have few := batch.few
  have success : batch.values.countP (converted convert) ≤ batch.values.length :=
    List.countP_le_length
  have failures : notNulls batch.values ≤ batch.values.countP (converted convert) + maxBatchRows / 5 := by
    simp only [numericMaxFailedRatio, numericDefaultFailedRatio, maxBatchRows] at *
    omega
  have size : (failedBytes convert batch.values).length ≤ maxBatchRows / 5 * numericMaxSize := by
    have scaled := Nat.mul_le_mul_right numericMaxSize failures
    rw [Nat.add_mul] at scaled
    omega
  have empty : NumericsStatistics.empty.Counts 0 0 0 := ⟨rfl, rfl, rfl⟩
  have bound : 0 + (failedBytes convert batch.values).length < 2 ^ 31 := by
    have most : maxBatchRows / 5 * numericMaxSize < 2 ^ 31 := by decide
    omega
  have counted := counts_foldl empty bound
  rw [Nat.zero_add, Nat.zero_add, Nat.zero_add] at counted
  exact ⟨counted, size, by omega, by omega⟩

end Batch

end OpenGauss.CStore
