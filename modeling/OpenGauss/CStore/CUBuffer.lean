import OpenGauss.CStore.CUData

/-! The compressed buffer of a compression unit, `Compress` and `UnCompress` of `cu.cpp`. -/

namespace OpenGauss.CStore

open Lib SelfSized

/-- Set in the flags of every CU that is written; the checksum is then a CRC32C. -/
def cuCRC32C : UInt16 := 0x1000

def crc32cStep (crc : UInt32) (byte : UInt8) : UInt32 :=
  (List.range 8).foldl (fun crc _ =>
    if crc &&& 1 = 1 then (crc >>> 1) ^^^ 0x82F63B78 else crc >>> 1) (crc ^^^ byte.toUInt32)

/-- `INIT_CRC32C`, `COMP_CRC32C` and `FIN_CRC32C`, bit by bit instead of by tables. -/
def crc32c (bytes : List UInt8) : UInt32 := ~~~(bytes.foldl crc32cStep 0xFFFFFFFF)

/-- A power of two in the source. -/
abbrev AlignSize := {size : Nat // 0 < size}

def alignCuSize (len : Nat) (alignSize : AlignSize) : Nat :=
  (len + (alignSize - 1)) / alignSize * alignSize

/-- `sizeof(CU)`, an upper bound of the header. -/
def sizeOfCU : Nat := 120

def getCUHeaderSize (infoMode : UInt16) : Nat :=
  4 + 4 + 2 + (if hasNullValue infoMode then 2 else 0) + 4 + 4

theorem le_alignCuSize (len : Nat) (alignSize : AlignSize) : len ≤ alignCuSize len alignSize := by
  have positive := alignSize.2
  have whole := Nat.div_add_mod (len + (alignSize.1 - 1)) alignSize.1
  have part := Nat.mod_lt (len + (alignSize.1 - 1)) positive
  rw [alignCuSize, Nat.mul_comm]
  omega

theorem getCUHeaderSize_le (infoMode : UInt16) : getCUHeaderSize infoMode ≤ 20 := by
  unfold getCUHeaderSize
  split
  · exact le_rfl
  · decide

structure CompressedCU where
  compressedBuf : List UInt8
  cuSize : Nat
  cuSizeExcludePadding : Nat
  infoMode : UInt16
  crc : UInt32

def fillCompressBufHeader (magic : UInt32) (infoMode : UInt16)
    (bpNullCompressedSize srcDataSize cmprDataSize : Nat) : List UInt8 :=
  leBytes 4 magic.toNat ++ (leBytes 2 infoMode.toNat ++
    ((if hasNullValue infoMode then leBytes 2 bpNullCompressedSize else []) ++
      (leBytes 4 srcDataSize ++ leBytes 4 cmprDataSize)))

namespace CU

variable (env : CUEnv) (cu : CU) (modes : Option (Compression × Fin 4)) (alignSize : AlignSize)

def nullBitmap : List UInt8 := if hasNullValue cu.infoMode then cu.nulls else []

/-- The room behind the bitmap in the buffer that `Compress` allocates. -/
def outRoom : Nat :=
  alignCuSize (cu.srcData.length + cu.nulls.length + sizeOfCU) alignSize -
    (getCUHeaderSize cu.infoMode + cu.nullBitmap.length)

theorem length_nullBitmap_le : cu.nullBitmap.length ≤ cu.nulls.length := by
  unfold nullBitmap
  split
  · exact le_rfl
  · exact Nat.zero_le _

theorem le_outRoom : cu.srcData.length ≤ cu.outRoom alignSize := by
  have aligned := le_alignCuSize (cu.srcData.length + cu.nulls.length + sizeOfCU) alignSize
  have header := getCUHeaderSize_le cu.infoMode
  have bitmap := cu.length_nullBitmap_le
  unfold outRoom sizeOfCU at *
  omega

/-- The data and the methods applied to it; without compression asked for, or with no advantage
from it, the source data. -/
def storedData : List UInt8 × UInt16 :=
  let output := modes.bind fun mode =>
    cu.compressData env mode.1 mode.2 (cu.le_outRoom alignSize)
  match output with
  | some output => (output.buf, output.modes &&& cuInfomask1)
  | none => (cu.srcData, 0)

def compress : CompressedCU :=
  let headerLen := getCUHeaderSize cu.infoMode
  let bitmap := cu.nullBitmap
  let (data, methods) := cu.storedData env modes alignSize
  let cuSizeExcludePadding := headerLen + bitmap.length + data.length
  let cuSize := alignCuSize cuSizeExcludePadding alignSize
  let infoMode := cu.infoMode ||| methods ||| cuCRC32C
  let cmprDataSize := cuSizeExcludePadding - headerLen - bitmap.length
  let header := fillCompressBufHeader cu.magic infoMode bitmap.length cu.srcData.length cmprDataSize
  let padding := List.replicate (cuSize - cuSizeExcludePadding) 0
  let behindCrc := header ++ (bitmap ++ (data ++ padding))
  let crc := crc32c behindCrc
  ⟨leBytes 4 crc.toNat ++ behindCrc, cuSize, cuSizeExcludePadding, infoMode, crc⟩

end CU

inductive CUError where
  | magicNotMatched (cudesc stored : UInt32)
  | cuSizeError (cudesc header : Nat)
  | dataCorrupts
deriving DecidableEq, Repr

structure CUHeader where
  crc : UInt32
  magic : UInt32
  infoMode : UInt16
  bpNullCompressedSize : Nat
  srcDataSize : Nat
  cuSizeExcludePadding : Nat

def readField (width : Nat) (buf : List UInt8) : Nat × List UInt8 :=
  (leNat (buf.take width), buf.drop width)

/-- The header and what follows it. A size aligned as before an upgrade is accepted. -/
def unCompressHeader (magic : UInt32) (alignSize : AlignSize) (cuSize : Nat)
    (compressedBuf : List UInt8) : Except CUError (CUHeader × List UInt8) :=
  let (crc, buf) := readField 4 compressedBuf
  let (stored, buf) := readField 4 buf
  if magic ≠ UInt32.ofNat stored then .error (.magicNotMatched magic (UInt32.ofNat stored))
  else
    let (flags, buf) := readField 2 buf
    let infoMode := UInt16.ofNat flags
    let (bpNullCompressedSize, buf) := if hasNullValue infoMode then readField 2 buf else (0, buf)
    let (srcDataSize, buf) := readField 4 buf
    let (cmprDataSize, buf) := readField 4 buf
    let cuSizeExcludePadding := getCUHeaderSize infoMode + bpNullCompressedSize + cmprDataSize
    let alignCuSize' := alignCuSize cuSizeExcludePadding alignSize
    let header : CUHeader := ⟨UInt32.ofNat crc, UInt32.ofNat stored, infoMode, bpNullCompressedSize,
      srcDataSize, cuSizeExcludePadding⟩
    if cuSize ≠ alignCuSize' ∧ cuSize ≠ alignCuSize cuSizeExcludePadding ⟨32, by decide⟩ ∧
        cuSize ≠ alignCuSize cuSizeExcludePadding ⟨512, by decide⟩ then
      .error (.cuSizeError cuSize alignCuSize')
    else .ok (header, buf)

/-- The bitmap, zero where the stored size is not that of the rows, and what follows it. -/
def unCompressNullBitmapIfNeed (header : CUHeader) (rowCount : Nat) (buf : List UInt8) :
    List UInt8 × List UInt8 :=
  let bpNullRawSize := if hasNullValue header.infoMode then bitmapSize rowCount else 0
  let nulls := if header.bpNullCompressedSize = bpNullRawSize then buf.take bpNullRawSize
    else List.replicate bpNullRawSize 0
  (nulls, buf.drop header.bpNullCompressedSize)

structure UnCompressedCU where
  header : CUHeader
  nulls : List UInt8
  srcData : List UInt8
  srcDataSize : Nat

def unCompress (env : CUEnv) (column : CUColumn) (magic : UInt32) (alignSize : AlignSize)
    (rowCount cuSize : Nat) (compressedBuf : List UInt8) : Except CUError UnCompressedCU := do
  let (header, buf) ← unCompressHeader magic alignSize cuSize compressedBuf
  let (nulls, buf) := unCompressNullBitmapIfNeed header rowCount buf
  let cmprDataSize := header.cuSizeExcludePadding - getCUHeaderSize header.infoMode -
    header.bpNullCompressedSize
  match unCompressData env column header.infoMode header.srcDataSize (buf.take cmprDataSize) nulls
      rowCount with
  | some (srcData, srcDataSize) => .ok ⟨header, nulls, srcData, srcDataSize⟩
  | none => .error .dataCorrupts

theorem readField_leBytes {width value : Nat} (fits : value < 256 ^ width) (rest : List UInt8) :
    readField width (leBytes width value ++ rest) = (value, rest) := by
  have length := length_leBytes width value
  rw [readField, List.take_left' length, List.drop_left' length, leNat_leBytes fits]

/-- The reader takes the fields from where the writer put them, with or without a bitmap. -/
theorem unCompressHeader_fill {crc magic : UInt32} {infoMode : UInt16} {alignSize : AlignSize}
    {bpNullCompressedSize srcDataSize cmprDataSize : Nat} (rest : List UInt8)
    (bitmap : bpNullCompressedSize < 2 ^ 16)
    (noBitmap : hasNullValue infoMode = false → bpNullCompressedSize = 0)
    (src : srcDataSize < 2 ^ 31) (cmpr : cmprDataSize < 2 ^ 31) :
    unCompressHeader magic alignSize
      (alignCuSize (getCUHeaderSize infoMode + bpNullCompressedSize + cmprDataSize) alignSize)
      (leBytes 4 crc.toNat ++
        (fillCompressBufHeader magic infoMode bpNullCompressedSize srcDataSize cmprDataSize ++ rest)) =
    .ok (⟨crc, magic, infoMode, bpNullCompressedSize, srcDataSize,
      getCUHeaderSize infoMode + bpNullCompressedSize + cmprDataSize⟩, rest) := by
  have crcRead := readField_leBytes (crc.toNat_lt.trans_eq (show 2 ^ 32 = 256 ^ 4 by decide))
  have magicRead := readField_leBytes (magic.toNat_lt.trans_eq (show 2 ^ 32 = 256 ^ 4 by decide))
  have flagsRead := readField_leBytes (infoMode.toNat_lt.trans_eq (show 2 ^ 16 = 256 ^ 2 by decide))
  have bitmapRead := readField_leBytes (bitmap.trans_eq (show 2 ^ 16 = 256 ^ 2 by decide))
  have srcRead := readField_leBytes (src.trans (show 2 ^ 31 < 256 ^ 4 by decide))
  have cmprRead := readField_leBytes (cmpr.trans (show 2 ^ 31 < 256 ^ 4 by decide))
  unfold unCompressHeader fillCompressBufHeader
  simp only [List.append_assoc, crcRead, magicRead, flagsRead, UInt32.ofNat_toNat,
    UInt16.ofNat_toNat, ne_eq, not_true_eq_false, if_false]
  cases null : hasNullValue infoMode with
  | true => simp [bitmapRead, srcRead, cmprRead]
  | false => simp [srcRead, cmprRead, noBitmap null]

/-- The flags that `Compress` leaves name the methods of the data and keep all else. -/
structure MarkedWith (infoMode methods base : UInt16) : Prop where
  methods : SameMethods infoMode methods
  others : ∀ flag, methodBits &&& flag = 0 → cuCRC32C &&& flag = 0 → infoMode &&& flag = base &&& flag

theorem markedWith {base methods : UInt16} (unset : base &&& methodBits = 0)
    (own : methods &&& methodBits = methods) :
    MarkedWith (base ||| methods ||| cuCRC32C) methods base := by
  constructor
  · rw [SameMethods, or_and_distrib, or_and_distrib, unset, UInt16.zero_or]
    exact UInt16.or_zero
  · intro flag apart crc
    rw [or_and_distrib, or_and_distrib, crc, ← own, UInt16.and_assoc, apart, UInt16.and_zero,
      UInt16.or_zero, UInt16.or_zero]

section Compress

variable {env : CUEnv} {cu : CU} (modes : Option (Compression × Fin 4)) (alignSize : AlignSize)

theorem CU.nullBitmap_eq (cu : CU) : cu.nullBitmap = cu.nulls := by
  have bitmap := cu.bitmap
  unfold CU.nullBitmap
  split
  · rfl
  · rename_i absent
    rw [if_neg absent] at bitmap
    exact (List.eq_nil_of_length_eq_zero bitmap).symm

theorem CU.length_nulls (cu : CU) : cu.nulls.length < 2 ^ 16 := by
  have bitmap := cu.bitmap
  have rows := cu.rows
  unfold bitmapSize maxBatchRows at *
  split at bitmap
  · omega
  · omega

theorem storedData_spec (roundTrip : env.RoundTrip) {values : List UInt8} {size : Nat}
    (filled : Filled env cu values size) :
    (cu.storedData env modes alignSize).1.length ≤ cu.srcData.length ∧
      (cu.storedData env modes alignSize).2 &&& methodBits = (cu.storedData env modes alignSize).2 ∧
      ∀ infoMode, SameMethods infoMode (cu.storedData env modes alignSize).2 →
        isIntLike infoMode = cu.intLike →
        unpack env cu.column infoMode cu.srcData.length (cu.storedData env modes alignSize).1 =
          some cu.srcData := by
  unfold CU.storedData
  dsimp only
  split
  · rename_i output compressed
    obtain ⟨mode, -, data⟩ := Option.bind_eq_some_iff.mp compressed
    obtain ⟨methods, shorter, back⟩ := restored_compressData roundTrip filled data
    have own : output.modes &&& cuInfomask1 = output.modes := by
      rw [← methods, UInt16.and_assoc]
      exact congrArg (output.modes &&& ·) (by decide)
    rw [own]
    exact ⟨shorter, methods, back⟩
  · exact ⟨le_rfl, UInt16.zero_and, fun infoMode same _ => unpack_raw same⟩

/-- Reading the buffer that `Compress` wrote gives back the flags that it left, the size of the
source data, the null bitmap and what the CU was filled with, whatever compression was asked for and
whether or not it was given up. -/
theorem unCompress_compress (env : CUEnv) (roundTrip : env.RoundTrip) (cu : CU)
    (values : List UInt8) (size : Nat) (filled : Filled env cu values size)
    (modes : Option (Compression × Fin 4)) (alignSize : AlignSize) :
    unCompress env cu.column cu.magic alignSize cu.rowCount (cu.compress env modes alignSize).cuSize
        (cu.compress env modes alignSize).compressedBuf =
      .ok ⟨⟨(cu.compress env modes alignSize).crc, cu.magic,
          (cu.compress env modes alignSize).infoMode, cu.nulls.length, cu.srcData.length,
          (cu.compress env modes alignSize).cuSizeExcludePadding⟩,
        cu.nulls, values, size⟩ := by
  obtain ⟨shorter, own, back⟩ := storedData_spec modes alignSize roundTrip filled
  have small := cu.small
  have marked := markedWith cu.unset own
  unfold CU.compress
  dsimp only
  generalize cu.storedData env modes alignSize = stored at *
  obtain ⟨data, methods⟩ := stored
  dsimp only at shorter own back marked ⊢
  generalize cu.infoMode ||| methods ||| cuCRC32C = infoMode at *
  have nulls : hasNullValue infoMode = hasNullValue cu.infoMode :=
    congrArg (· != 0) (marked.others cuHasNull (by decide) (by decide))
  have intLike : isIntLike infoMode = cu.intLike :=
    congrArg (· != 0) (marked.others cuIntLikeCompressed (by decide) (by decide))
  have header : getCUHeaderSize infoMode = getCUHeaderSize cu.infoMode := by
    rw [getCUHeaderSize, getCUHeaderSize, nulls]
  have cmpr (front bitmap : Nat) : front + bitmap + data.length - front - bitmap = data.length := by
    omega
  rw [cu.nullBitmap_eq, cmpr, ← header]
  have noBitmap (absent : hasNullValue infoMode = false) : cu.nulls.length = 0 := by
    rw [cu.bitmap, ← nulls, absent]
    rfl
  rw [unCompress]
  simp only [unCompressHeader_fill _ cu.length_nulls noBitmap small (shorter.trans_lt small)]
  have rawSize : (if hasNullValue infoMode then bitmapSize cu.rowCount else 0) = cu.nulls.length := by
    rw [nulls, cu.bitmap]
  have values := unCompressData_of_unpack roundTrip filled intLike
    (marked.others cuDscaleNumeric (by decide) (by decide)) nulls
    (back infoMode marked.methods intLike)
  simp only [unCompressNullBitmapIfNeed, rawSize, if_true, List.take_left, List.drop_left, cmpr,
    values, bind, Except.bind]

end Compress

/-- Codecs that leave everything as it is; a column of integers does not call them. -/
def sampleEnv : CUEnv where
  libs := IntegerCoder.sampleLibs
  sequence := ⟨⟨fun _ source => source, fun _ source _ => source⟩,
    ⟨fun _ source => source, fun _ source _ => source⟩⟩
  numeric := ⟨fun _ => none, fun _ _ _ source => source⟩
  hashAny := fun _ => 0
  enableTsdb := true

theorem sampleEnv_roundTrip : sampleEnv.RoundTrip :=
  ⟨IntegerCoder.sampleLibs_roundTrip, ⟨fun _ _ _ _ _ => rfl, fun _ _ _ _ _ => rfl⟩,
    fun _ _ _ encoded => nomatch encoded⟩

/-- Six integers and a null; their deltas are stored. -/
def sampleCU : CU where
  column := ⟨.fixed int32Size, -1, 23, fun timestamp => absurd timestamp (by decide),
    fun float => absurd float (by decide)⟩
  rowCount := 7
  srcData := leWords 4 [300, 301, 302, 303, 304, 305]
  nulls := [2]
  infoMode := cuHasNull
  magic := 7
  minMaxVal := none
  adoptRle := true
  adoptDict := true
  rows := by decide
  nonempty := by decide
  small := by decide
  unset := by decide
  bitmap := by decide

theorem sampleCU_filled : Filled sampleEnv sampleCU (leWords 4 [300, 301, 302, 303, 304, 305]) 24 :=
  .plain (by decide) ⟨⟨6, rfl⟩, fun _ given => nomatch given⟩

theorem unCompress_compress_sample : unCompress sampleEnv sampleCU.column 7 ⟨8192, by decide⟩ 7
        (sampleCU.compress sampleEnv (some (.low, 0)) ⟨8192, by decide⟩).cuSize
        (sampleCU.compress sampleEnv (some (.low, 0)) ⟨8192, by decide⟩).compressedBuf =
      .ok ⟨⟨(sampleCU.compress sampleEnv (some (.low, 0)) ⟨8192, by decide⟩).crc, 7,
          (sampleCU.compress sampleEnv (some (.low, 0)) ⟨8192, by decide⟩).infoMode, 1, 24,
          (sampleCU.compress sampleEnv (some (.low, 0)) ⟨8192, by decide⟩).cuSizeExcludePadding⟩,
        [2], leWords 4 [300, 301, 302, 303, 304, 305], 24⟩ :=
  unCompress_compress sampleEnv sampleEnv_roundTrip sampleCU _ _ sampleCU_filled _ _

end OpenGauss.CStore
