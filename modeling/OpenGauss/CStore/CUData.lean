import OpenGauss.CStore.NumberStrings
import OpenGauss.CStore.SequenceCodec

/-! The data of a compression unit, `CompressData` and `UnCompressData` of `cu.cpp`. -/

namespace OpenGauss.CStore

open Lib SelfSized

def cuIntLikeCompressed : UInt16 := 0x0080

/-- `CU_INFOMASK1`, all the modes of compression. -/
def cuInfomask1 : UInt16 := 0x00FF

def cuDscaleNumeric : UInt16 := 0x0100

def cuHasNull : UInt16 := 0x0400

/-- `m_eachValSize`: 1, 2, 4 or 8 bytes, a fixed length above 8, or -1 and -2. -/
inductive EachValSize where
  | fixed (size : IntSize)
  | wide
  | varlena

def int32Size : IntSize := ⟨⟨4, by decide⟩, by decide⟩

def int64Size : IntSize := ⟨⟨8, by decide⟩, by decide⟩

/-- What a CU knows of its column. Timestamps and floats have the lengths of the catalog. -/
structure CUColumn where
  eachValSize : EachValSize
  typeMode : Int
  atttypid : Oid
  timestampSize : attIsTimestamp atttypid → eachValSize = .fixed int64Size
  floatSize : attIsFloat atttypid → eachValSize = .fixed int32Size ∨ eachValSize = .fixed int64Size

/-- The encoding of not-null numerics, and its inverse with the scale flag, the number of values and
the type mode. -/
structure NumericCodec where
  compress : List (List UInt8) → Option (List UInt8)
  restore : Bool → Nat → Int → List UInt8 → List UInt8

/-- What the methods of a CU call, and `enable_tsdb`. -/
structure CUEnv where
  libs : CompressLibs
  sequence : SequenceCodecs
  numeric : NumericCodec
  hashAny : List UInt8 → UInt32
  enableTsdb : Bool

structure CUEnv.RoundTrip (env : CUEnv) : Prop where
  libs : env.libs.RoundTrip
  sequence : env.sequence.RoundTrip
  numeric : ∀ values typeMode packed, env.numeric.compress values = some packed →
    env.numeric.restore true values.length typeMode packed = values.flatten

def hasNullValue (infoMode : UInt16) : Bool := infoMode &&& cuHasNull != 0

def bitmapSize (rows : Nat) : Nat := (rows + 7) / 8

def numberOfBit1Set (byte : UInt8) : Nat := (List.range 8).countP byte.toNat.testBit

def countNullValuesBefore (infoMode : UInt16) (nulls : List UInt8) (rows : Nat) : Nat :=
  if hasNullValue infoMode then
    let nBytes := rows / 8
    ((nulls.take nBytes).map numberOfBit1Set).sum +
      (List.range (rows % 8)).countP (nulls.getD nBytes 0).toNat.testBit
  else 0

def maxBatchRows : Nat := 60000

/-- A CU that has been filled, before `Compress`. The mode flags hold no method yet, and the bitmap
covers the rows if there is one. A CU of nulls only is not compressed. -/
structure CU where
  column : CUColumn
  rowCount : Nat
  srcData : List UInt8
  nulls : List UInt8
  infoMode : UInt16
  magic : UInt32
  minMaxVal : Option (Int × Int)
  adoptRle : Bool
  adoptDict : Bool
  rows : rowCount ≤ maxBatchRows
  nonempty : srcData ≠ []
  small : srcData.length < 2 ^ 31
  unset : infoMode &&& methodBits = 0
  bitmap : nulls.length = if hasNullValue infoMode then bitmapSize rowCount else 0

namespace CU

variable (env : CUEnv) (cu : CU) (compression : Compression) (compressLevel : Fin 4)

def intLike : Bool := cu.infoMode &&& cuIntLikeCompressed != 0

def numVals : Nat := cu.rowCount - countNullValuesBefore cu.infoMode cu.nulls cu.rowCount

def input : CompressionArg1 := ⟨cu.srcData, compression, compressLevel, cu.small⟩

/-- `none` where the source returns 0 or less, here and below. -/
def compressSequence : Option CompressionArg2 :=
  if env.enableTsdb && (attIsTimestamp cu.column.atttypid || attIsFloat cu.column.atttypid) then
    match cu.column.eachValSize with
    | .fixed size => (SequenceCodec.mk size cu.column.atttypid).compress env.sequence env.libs
        (cu.input compression compressLevel)
    | _ => none
  else none

def integerCoder (size : IntSize) : IntegerCoder := ⟨size, cu.adoptRle, cu.minMaxVal⟩

def compressIntegers (size : IntSize) : Option CompressionArg2 :=
  let output := (cu.integerCoder size).compressInner env.libs (cu.input compression compressLevel)
  if output.modes = 0 then none else some output

section Strings

variable {outSize : Nat} (room : cu.srcData.length ≤ outSize)

def stringArg (useDict : Bool) : StringArg :=
  { cu.input compression compressLevel with
    numVals := cu.numVals
    useDict := useDict
    outSize := outSize
    enough := room }

def compressStrings (coder : StringCoder) (useDict : Bool) : Option CompressionArg2 :=
  coder.compressInner env.libs env.hashAny (cu.stringArg compression compressLevel room useDict)

def compressByType : Option CompressionArg2 :=
  let coder : StringCoder := ⟨cu.adoptRle, cu.adoptDict⟩
  if cu.intLike then
    if attIsCharType cu.column.atttypid then
      cu.compressIntegers env compression compressLevel int64Size
    else if attIsNumericType cu.column.atttypid then
      if compression = .low then none
      else cu.compressStrings env compression compressLevel room ⟨true, true⟩ false
    else none
  else
    match cu.column.eachValSize with
    | .fixed size => cu.compressIntegers env compression compressLevel size
    | .wide => cu.compressStrings env compression compressLevel room coder false
    | .varlena => cu.compressStrings env compression compressLevel room coder (compression ≠ .low)

/-- `none` where the data stays as it is. -/
def compressData : Option CompressionArg2 :=
  let output :=
    match cu.compressSequence env compression compressLevel with
    | some output => some output
    | none => cu.compressByType env compression compressLevel room
  output.filter fun output => 0 < output.buf.length

end Strings

end CU

section Reading

variable (env : CUEnv) (column : CUColumn) (infoMode : UInt16) (srcDataSize : Nat) (buf : List UInt8)

def isIntLike : Bool := infoMode &&& cuIntLikeCompressed != 0

/-- The first half of `UncompressNumeric`. An error code of 0 or less is an error. -/
def unpackNumeric : Option (List UInt8) :=
  if infoMode &&& cuInfomask1 &&& ~~~cuIntLikeCompressed ≠ 0 then
    (StringCoder.decompress env.libs ⟨buf, infoMode⟩ srcDataSize).filter fun out => 0 < out.length
  else some buf

/-- The coder by the modes, then by the size of a value. -/
def decode : Option (List UInt8) :=
  let input : CompressionArg2 := ⟨buf, infoMode⟩
  if infoMode &&& cuCompressMask1 = cuDelta2Compressed then
    (SequenceCodec.mk int64Size column.atttypid).decompress env.sequence env.libs input srcDataSize
  else if infoMode &&& cuCompressMask1 = cuXORCompressed then
    match column.eachValSize with
    | .fixed size =>
      (SequenceCodec.mk size column.atttypid).decompress env.sequence env.libs input srcDataSize
    | _ => none
  else
    match if isIntLike infoMode then .fixed int64Size else column.eachValSize with
    | .fixed size => (IntegerCoder.mk size true none).decompress env.libs input srcDataSize
    | _ => StringCoder.decompress env.libs input srcDataSize

def unpackData : Option (List UInt8) :=
  if infoMode &&& cuInfomask1 ≠ 0 then
    (decode env column infoMode srcDataSize buf).filter fun out => 0 < out.length
  else some (buf.take srcDataSize)

/-- `m_srcData` and `m_srcDataSize`; for numerics the size stays that of the encoding. -/
def unCompressData (nulls : List UInt8) (rowCount : Nat) : Option (List UInt8 × Nat) :=
  if isIntLike infoMode && attIsNumericType column.atttypid then
    let nNotNulls := rowCount - countNullValuesBefore infoMode nulls rowCount
    (unpackNumeric env infoMode srcDataSize buf).map fun packed =>
      (env.numeric.restore (infoMode &&& cuDscaleNumeric != 0) nNotNulls column.typeMode packed, srcDataSize)
  else
    (unpackData env column infoMode srcDataSize buf).map fun srcData =>
      if isIntLike infoMode then
        let bpcharType := column.atttypid == bpcharOid && (varhdrsz : Int) < column.typeMode
        let strings := deFormNumberString bpcharType column.typeMode.toNat srcData
        (strings, strings.length)
      else (srcData, srcDataSize)

end Reading

theorem sameMethods_zero_and {modes bit : UInt16} (same : SameMethods modes 0)
    (method : methodBits &&& bit = bit) : modes &&& bit = 0 := by
  rw [same.bit method, UInt16.zero_and]

/-- Without the bit for integer-like data, the modes of compression are the methods. -/
theorem infomask1_and (modes : UInt16) :
    modes &&& cuInfomask1 &&& ~~~cuIntLikeCompressed = modes &&& methodBits := by
  rw [UInt16.and_assoc]
  exact congrArg (modes &&& ·) (by decide)

theorem infomask1_ne {modes : UInt16} (set : modes &&& methodBits ≠ 0) : modes &&& cuInfomask1 ≠ 0 := by
  intro unset
  rw [← infomask1_and, unset, UInt16.zero_and] at set
  exact set rfl

/-- The bit that marks the modes of sequences. -/
def cuCompressExtend : UInt16 := 0x0004

theorem extended_of_mask1 {modes mode : UInt16} (sequence : modes &&& cuCompressMask1 = mode) :
    modes &&& cuCompressExtend = mode &&& cuCompressExtend := by
  rw [← sequence, UInt16.and_assoc]
  exact congrArg (modes &&& ·) (by decide)

/-- Methods of the pipelines for integers and for strings are seen by the reader, and not taken for
those of sequences. -/
structure CoderModes (modes : UInt16) : Prop where
  set : modes &&& methodBits ≠ 0
  notDelta2 : modes &&& cuCompressMask1 ≠ cuDelta2Compressed
  notXOR : modes &&& cuCompressMask1 ≠ cuXORCompressed

theorem coderModes {modes output : UInt16} (own : OfCoder output) (set : output ≠ 0)
    (same : SameMethods modes output) : CoderModes modes := by
  have low : modes &&& methodBits = output := by
    rw [same, ← own, UInt16.and_assoc]
    exact congrArg (output &&& ·) (by decide)
  have plain : modes &&& cuCompressExtend = 0 := by
    rw [same.bit (by decide), ← own, UInt16.and_assoc]
    exact UInt16.and_zero
  refine ⟨low ▸ set, fun delta2 => ?_, fun xor => ?_⟩
  · rw [extended_of_mask1 delta2] at plain
    exact absurd plain (by decide)
  · rw [extended_of_mask1 xor] at plain
    exact absurd plain (by decide)

/-- The bytes that the coders give back, for numerics those of their encoding. -/
def unpack (env : CUEnv) (column : CUColumn) (infoMode : UInt16) (srcDataSize : Nat)
    (buf : List UInt8) : Option (List UInt8) :=
  if isIntLike infoMode && attIsNumericType column.atttypid then
    unpackNumeric env infoMode srcDataSize buf
  else unpackData env column infoMode srcDataSize buf

theorem filter_nonempty {bytes : List UInt8} (nonempty : bytes ≠ []) :
    (some bytes).filter (fun out => decide (0 < out.length)) = some bytes := by
  rw [Option.filter_some, if_pos (decide_eq_true (List.length_pos_iff.mpr nonempty))]

/-- The values of a column whose bytes are not encoded: whole integers of the length of the type,
within the bounds that are handed on, or strings with their headers. -/
def CU.WholeValues (cu : CU) : Prop :=
  match cu.column.eachValSize with
  | .fixed size => size.1.1 ∣ cu.srcData.length ∧ ∀ minMaxVal, cu.minMaxVal = some minMaxVal →
      Bounds size minMaxVal (intVals size (cu.srcData.length / size.1) cu.srcData)
  | .wide => True
  | .varlena => ∃ values : List Varlena, values.length = cu.numVals ∧ cu.srcData = joined values

theorem CU.numVals_le (cu : CU) : cu.numVals ≤ 60000 :=
  (Nat.sub_le _ _).trans cu.rows

/-- Compressed data, not longer than the source data, that the reader restores, whatever else the
flags of the CU say. -/
structure Restored (env : CUEnv) (cu : CU) (output : CompressionArg2) : Prop where
  methods : output.modes &&& methodBits = output.modes
  length_le : output.buf.length ≤ cu.srcData.length
  back : ∀ modes, SameMethods modes output.modes → isIntLike modes = cu.intLike →
    unpack env cu.column modes cu.srcData.length output.buf = some cu.srcData

theorem OfCoder.methods {modes : UInt16} (own : OfCoder modes) : modes &&& methodBits = modes := by
  rw [← own, UInt16.and_assoc]
  exact congrArg (modes &&& ·) (by decide)

section Unpack

variable {env : CUEnv} {cu : CU} {compression : Compression} {compressLevel : Fin 4}
  (roundTrip : env.RoundTrip) {output : CompressionArg2}

variable {size : IntSize} {modes : UInt16} {buf : List UInt8} {atttypid : Oid} {values : List UInt8}

theorem sequenceSize (sized : cu.column.eachValSize = .fixed size)
    (typed : attIsTimestamp cu.column.atttypid ∨ attIsFloat cu.column.atttypid) :
    (size.1.1 = 4 ∨ size.1.1 = 8) ∧ (attIsTimestamp cu.column.atttypid → size = int64Size) := by
  have timestampSize (timestamp : attIsTimestamp cu.column.atttypid) : size = int64Size :=
    EachValSize.fixed.inj (sized.symm.trans (cu.column.timestampSize timestamp))
  refine ⟨?_, timestampSize⟩
  rcases typed with timestamp | float
  · rw [timestampSize timestamp]
    exact Or.inr rfl
  · rcases cu.column.floatSize float with four | eight
    · rw [EachValSize.fixed.inj (sized.symm.trans four)]
      exact Or.inl rfl
    · rw [EachValSize.fixed.inj (sized.symm.trans eight)]
      exact Or.inr rfl

theorem decode_sequence {srcDataSize : Nat} (sized : cu.column.eachValSize = .fixed size)
    (timestampSize : attIsTimestamp cu.column.atttypid → size = int64Size)
    (mode : modes &&& cuCompressMask1 = (SequenceCodec.mk size cu.column.atttypid).mode) :
    decode env cu.column modes srcDataSize buf =
      (SequenceCodec.mk size cu.column.atttypid).decompress env.sequence env.libs ⟨buf, modes⟩
        srcDataSize := by
  unfold decode
  rw [mode]
  by_cases timestamp : attIsTimestamp cu.column.atttypid
  · rw [SequenceCodec.mode, if_pos timestamp, if_pos rfl, timestampSize timestamp]
  · rw [SequenceCodec.mode, if_neg timestamp, if_neg (by decide), if_pos rfl, sized]

theorem not_numeric_of_sequence (typed : attIsTimestamp atttypid ∨ attIsFloat atttypid) :
    attIsNumericType atttypid = false := by
  by_contra numeric
  have oid : atttypid = numericOid := by simpa [attIsNumericType] using numeric
  rw [oid] at typed
  exact absurd typed (by decide)

include roundTrip in
theorem restored_compressSequence (whole : cu.WholeValues)
    (compressed : cu.compressSequence env compression compressLevel = some output) :
    Restored env cu output := by
  unfold CU.compressSequence at compressed
  split at compressed
  · rename_i tsdb
    have typed : attIsTimestamp cu.column.atttypid ∨ attIsFloat cu.column.atttypid :=
      Bool.or_eq_true_iff.mp (Bool.and_eq_true_iff.mp tsdb).2
    split at compressed
    · rename_i size sized
      obtain ⟨width, timestampSize⟩ := sequenceSize sized typed
      rw [CU.WholeValues, sized] at whole
      obtain ⟨marked, methods, shorter, back⟩ := SequenceCodec.decompress_of_compress roundTrip.libs
        roundTrip.sequence typed width cu.nonempty whole.1 compressed
      refine ⟨methods, shorter, fun modes same _ => ?_⟩
      have mode : modes &&& cuCompressMask1 = (SequenceCodec.mk size cu.column.atttypid).mode := by
        rw [same.bit (by decide), marked]
      have set : modes &&& cuInfomask1 ≠ 0 := by
        apply infomask1_ne
        intro unset
        have nothing : SameMethods modes 0 := by rw [SameMethods, unset, UInt16.zero_and]
        rw [sameMethods_zero_and nothing (by decide)] at mode
        rcases @SequenceCodec.mode_eq ⟨size, cu.column.atttypid⟩ with delta2 | xor
        · exact absurd (mode.trans delta2) (by decide)
        · exact absurd (mode.trans xor) (by decide)
      rw [unpack, not_numeric_of_sequence typed, Bool.and_false, if_neg (by decide), unpackData,
        if_pos set, decode_sequence sized timestampSize mode]
      exact (congrArg (Option.filter _) (back modes same)).trans (filter_nonempty cu.nonempty)
    · cases compressed
  · cases compressed

/-- Where the flags name the pipeline of the size of the values, the reader takes it. -/
theorem unpack_coder (coded : CoderModes modes)
    (notNumeric : (isIntLike modes && attIsNumericType cu.column.atttypid) = false)
    (back : (match if isIntLike modes then .fixed int64Size else cu.column.eachValSize
      with
      | .fixed size => (IntegerCoder.mk size true none).decompress env.libs ⟨buf, modes⟩
          cu.srcData.length
      | _ => StringCoder.decompress env.libs ⟨buf, modes⟩ cu.srcData.length) = some cu.srcData) :
    unpack env cu.column modes cu.srcData.length buf = some cu.srcData := by
  have decoded : decode env cu.column modes cu.srcData.length buf = some cu.srcData := by
    unfold decode
    dsimp only
    rw [if_neg coded.notDelta2, if_neg coded.notXOR]
    exact back
  rw [unpack, notNumeric, if_neg (by decide), unpackData, if_pos (infomask1_ne coded.set), decoded,
    filter_nonempty cu.nonempty]

include roundTrip in
theorem restored_compressIntegers (whole : size.1.1 ∣ cu.srcData.length)
    (supplied : ∀ minMaxVal, cu.minMaxVal = some minMaxVal →
      Bounds size minMaxVal (intVals size (cu.srcData.length / size.1) cu.srcData))
    (chosen : (if cu.intLike then .fixed int64Size else cu.column.eachValSize) = .fixed size)
    (notNumeric : (cu.intLike && attIsNumericType cu.column.atttypid) = false)
    (compressed : cu.compressIntegers env compression compressLevel size = some output) :
    Restored env cu output := by
  unfold CU.compressIntegers at compressed
  dsimp only at compressed
  split at compressed
  · cases compressed
  · rename_i set
    obtain rfl := Option.some.inj compressed
    have own := (cu.integerCoder size).compressInner_ofCoder env.libs (cu.input compression compressLevel)
    have back := @IntegerCoder.decompress_whole (cu.integerCoder size) env.libs roundTrip.libs
      (cu.input compression compressLevel) cu.nonempty whole supplied
    have shorter := (cu.integerCoder size).compressInner_length_le env.libs
      (cu.input compression compressLevel)
    refine ⟨own.methods, shorter, fun modes same flag => ?_⟩
    apply unpack_coder (coderModes own set same) (by rw [flag, notNumeric])
    rw [flag, chosen]
    dsimp only
    rw [IntegerCoder.decompress_sameMethods same]
    exact back

include roundTrip in
theorem restored_compressStrings {outSize : Nat} {room : cu.srcData.length ≤ outSize}
    {coder : StringCoder} {useDict : Bool}
    (strings : useDict = true → ∃ values : List Varlena,
      values.length = cu.numVals ∧ cu.srcData = joined values)
    (chosen : (cu.intLike = true ∧ attIsNumericType cu.column.atttypid = true) ∨
      (cu.intLike = false ∧ ∀ size, cu.column.eachValSize ≠ .fixed size))
    (compressed : cu.compressStrings env compression compressLevel room coder useDict = some output) :
    Restored env cu output := by
  have few (used : useDict = true) : ∃ values : List Varlena, values.length = cu.numVals ∧
      values.length ≤ 60000 ∧ cu.srcData = joined values := by
    obtain ⟨values, count, buf⟩ := strings used
    exact ⟨values, count, count ▸ cu.numVals_le, buf⟩
  obtain ⟨back, shorter, own, set⟩ := StringCoder.compressInner_spec roundTrip.libs few compressed
  refine ⟨own.methods, shorter, fun modes same flag => ?_⟩
  have coded := coderModes own set same
  have restored : StringCoder.decompress env.libs ⟨output.buf, modes⟩ cu.srcData.length =
      some cu.srcData := by
    rw [StringCoder.decompress_sameMethods same]
    exact back
  rcases chosen with ⟨intLike, numeric⟩ | ⟨plain, sized⟩
  · rw [unpack, flag, intLike, numeric, Bool.and_self, if_pos rfl, unpackNumeric, infomask1_and,
      if_pos coded.set, restored, filter_nonempty cu.nonempty]
  · apply unpack_coder coded (by rw [flag, plain, Bool.false_and])
    rw [flag, plain, if_neg (by decide)]
    split
    · rename_i size fixed
      exact absurd fixed (sized size)
    · exact restored

theorem unpack_raw (same : SameMethods modes 0) :
    unpack env cu.column modes cu.srcData.length cu.srcData = some cu.srcData := by
  have bit {bit : UInt16} (method : methodBits &&& bit = bit) := sameMethods_zero_and same method
  unfold unpack
  split
  · rw [unpackNumeric, infomask1_and, bit (by decide), if_neg (by decide)]
  · rename_i notNumeric
    by_cases intLike : isIntLike modes
    · -- the flag alone sends the data through the coder for integers, which finds no method
      have back : decode env cu.column modes cu.srcData.length cu.srcData = some cu.srcData := by
        unfold decode
        rw [bit (by decide), if_neg (by decide), if_neg (by decide), if_pos intLike]
        simp only [IntegerCoder.decompress, IntegerCoder.unpackLib, Option.bind_eq_bind,
          bit (show methodBits &&& cuDeltaCompressed = cuDeltaCompressed by decide),
          bit (show methodBits &&& cuRLECompressed = cuRLECompressed by decide),
          bit (show methodBits &&& cuLzCompressed = cuLzCompressed by decide),
          bit (show methodBits &&& cuZlibCompressed = cuZlibCompressed by decide),
          ne_eq, not_true_eq_false, if_false, Option.bind_some]
      rw [unpackData, back, filter_nonempty cu.nonempty, List.take_length, ite_self]
    · have flag : modes &&& cuIntLikeCompressed = 0 := by simpa [isIntLike] using intLike
      have unset : modes &&& cuInfomask1 = 0 := by
        have split : cuInfomask1 = methodBits ||| cuIntLikeCompressed := by decide
        rw [split, UInt16.and_comm, or_and_distrib, UInt16.and_comm methodBits,
          UInt16.and_comm cuIntLikeCompressed, bit (by decide), flag, UInt16.or_zero]
      rw [unpackData, if_neg (not_not.mpr unset), List.take_length]

/-- The ways of `FormCU` to fill a CU: the bytes of the values that are read back, and their size as
the reader keeps it. Digits become integers where the length of the type is set. -/
inductive Filled (env : CUEnv) (cu : CU) : List UInt8 → Nat → Prop
  | plain (notLike : cu.intLike = false) (whole : cu.WholeValues) :
      Filled env cu cu.srcData cu.srcData.length
  | numberStrings (values : List (List UInt8)) (intLike : cu.intLike = true)
      (charType : attIsCharType cu.column.atttypid = true) (noBounds : cu.minMaxVal = none)
      (few : values.length ≤ maxBatchRows)
      (sized : cu.column.atttypid = bpcharOid → (varhdrsz : Int) < cu.column.typeMode ∧
        ∀ value ∈ values, cu.column.typeMode.toNat = value.length + varhdrsz)
      (formed : formNumberString (cu.column.atttypid == bpcharOid) values = some cu.srcData) :
      Filled env cu (values.flatMap varlena4B) (values.flatMap varlena4B).length
  | numerics (values : List (List UInt8)) (intLike : cu.intLike = true)
      (numeric : attIsNumericType cu.column.atttypid = true)
      (dscale : cu.infoMode &&& cuDscaleNumeric ≠ 0) (count : values.length = cu.numVals)
      (encoded : env.numeric.compress values = some cu.srcData) :
      Filled env cu values.flatten cu.srcData.length

theorem not_sequence_of_charType (charType : attIsCharType atttypid = true) :
    (attIsTimestamp atttypid || attIsFloat atttypid) = false ∧ attIsNumericType atttypid = false := by
  simp only [attIsCharType, Bool.or_eq_true, beq_iff_eq] at charType
  rcases charType with (rfl | rfl) | rfl
  · decide
  · decide
  · decide

variable {outSize : Nat} {room : cu.srcData.length ≤ outSize}

include roundTrip in
theorem restored_compressByType {size : Nat} (filled : Filled env cu values size)
    (compressed : cu.compressByType env compression compressLevel room = some output) :
    Restored env cu output := by
  unfold CU.compressByType at compressed
  cases filled with
  | plain notLike whole =>
    rw [notLike, if_neg (by decide)] at compressed
    rw [CU.WholeValues] at whole
    split at compressed
    · rename_i size sized
      rw [sized] at whole
      exact restored_compressIntegers roundTrip whole.1 whole.2
        (by rw [notLike, if_neg (by decide), sized]) (by rw [notLike, Bool.false_and]) compressed
    · rename_i sized
      exact restored_compressStrings roundTrip (fun used => absurd used Bool.false_ne_true)
        (Or.inr ⟨notLike, fun _ fixed => nomatch sized.symm.trans fixed⟩) compressed
    · rename_i sized
      rw [sized] at whole
      exact restored_compressStrings roundTrip (fun _ => whole)
        (Or.inr ⟨notLike, fun _ fixed => nomatch sized.symm.trans fixed⟩) compressed
  | numberStrings values intLike charType noBounds few sized formed =>
    rw [intLike, if_pos rfl, if_pos charType] at compressed
    apply restored_compressIntegers roundTrip (length_formNumberString formed).1 ?_
      (by rw [intLike, if_pos rfl]) (by rw [(not_sequence_of_charType charType).2, Bool.and_false])
      compressed
    intro minMaxVal given
    exact nomatch noBounds.symm.trans given
  | numerics values intLike numeric dscale count encoded =>
    have notChar : attIsCharType cu.column.atttypid = false := by
      by_contra charType
      have other := (not_sequence_of_charType (Bool.eq_true_of_not_eq_false charType)).2
      exact Bool.false_ne_true (other.symm.trans numeric)
    rw [intLike, if_pos rfl, notChar, if_neg (by decide), if_pos numeric] at compressed
    split at compressed
    · cases compressed
    · exact restored_compressStrings roundTrip (fun used => absurd used Bool.false_ne_true)
        (Or.inl ⟨intLike, numeric⟩) compressed

include roundTrip in
theorem restored_compressData {size : Nat} (filled : Filled env cu values size)
    (compressed : cu.compressData env compression compressLevel room = some output) :
    Restored env cu output := by
  unfold CU.compressData at compressed
  obtain ⟨chosen, -⟩ := Option.filter_eq_some_iff.mp compressed
  split at chosen
  · rename_i sequence
    obtain rfl := Option.some.inj chosen
    cases filled with
    | plain notLike whole => exact restored_compressSequence roundTrip whole sequence
    | numberStrings values intLike charType noBounds few sized formed =>
      rw [CU.compressSequence, (not_sequence_of_charType charType).1, Bool.and_false,
        if_neg (by decide)] at sequence
      cases sequence
    | numerics values intLike numeric dscale count encoded =>
      have typed : (attIsTimestamp cu.column.atttypid || attIsFloat cu.column.atttypid) = false := by
        by_contra typed
        have other := not_numeric_of_sequence (Bool.or_eq_true_iff.mp (Bool.eq_true_of_not_eq_false typed))
        exact Bool.false_ne_true (other.symm.trans numeric)
      rw [CU.compressSequence, typed, Bool.and_false, if_neg (by decide)] at sequence
      cases sequence
  · exact restored_compressByType roundTrip filled chosen

/-- From the bytes that the coders give back, the values the CU was filled with. -/
theorem unCompressData_of_unpack (roundTrip : env.RoundTrip) {size : Nat}
    (filled : Filled env cu values size) (flag : isIntLike modes = cu.intLike)
    (dscale : modes &&& cuDscaleNumeric = cu.infoMode &&& cuDscaleNumeric)
    (nulls : hasNullValue modes = hasNullValue cu.infoMode)
    (back : unpack env cu.column modes cu.srcData.length buf = some cu.srcData) :
    unCompressData env cu.column modes cu.srcData.length buf cu.nulls cu.rowCount = some (values, size) := by
  unfold unpack at back
  unfold unCompressData
  rw [flag] at back ⊢
  cases filled with
  | plain notLike whole =>
    rw [notLike, Bool.false_and, if_neg (by decide)] at back ⊢
    rw [back]
    rfl
  | numberStrings values intLike charType noBounds few sized formed =>
    rw [intLike, (not_sequence_of_charType charType).2, Bool.and_false, if_neg (by decide)]
      at back ⊢
    have bpchar : (cu.column.atttypid == bpcharOid &&
        decide ((varhdrsz : Int) < cu.column.typeMode)) = (cu.column.atttypid == bpcharOid) := by
      by_cases oid : cu.column.atttypid = bpcharOid
      · rw [decide_eq_true (sized oid).1, Bool.and_true]
      · rw [beq_false_of_ne oid, Bool.false_and]
    have strings := deFormNumberString_formNumberString (few.trans_lt (by decide))
      (fun oid => (sized (beq_iff_eq.mp oid)).2) formed
    rw [back, Option.map_some, if_pos rfl]
    dsimp only
    rw [bpchar, strings]
  | numerics values intLike numeric scaled count encoded =>
    rw [intLike, numeric, Bool.and_self, if_pos rfl] at back ⊢
    have count' : cu.rowCount - countNullValuesBefore modes cu.nulls cu.rowCount =
        values.length := by
      rw [count, CU.numVals, countNullValuesBefore, countNullValuesBefore, nulls]
    have scale : (modes &&& cuDscaleNumeric != 0) = true := by
      rw [dscale]
      exact bne_iff_ne.mpr scaled
    rw [back, Option.map_some, count', scale, roundTrip.numeric values cu.column.typeMode cu.srcData encoded]

end Unpack

end OpenGauss.CStore
