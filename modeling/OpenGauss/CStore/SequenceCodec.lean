import OpenGauss.CStore.StringCoder

/-! Time series columns, `SequenceCodec` of `time_series_compress.cpp`, and the mode bits of all
coders. -/

namespace OpenGauss.CStore

open Lib

abbrev Oid := Nat

def float4Oid : Oid := 700

def float8Oid : Oid := 701

def bpcharOid : Oid := 1042

def varcharOid : Oid := 1043

def nvarchar2Oid : Oid := 3969

def timestampOid : Oid := 1114

def timestamptzOid : Oid := 1184

def numericOid : Oid := 1700

def attIsTimestamp (atttypid : Oid) : Bool := atttypid == timestampOid || atttypid == timestamptzOid

def attIsFloat (atttypid : Oid) : Bool := atttypid == float4Oid || atttypid == float8Oid

def attIsCharType (atttypid : Oid) : Bool :=
  atttypid == bpcharOid || atttypid == varcharOid || atttypid == nvarchar2Oid

def attIsNumericType (atttypid : Oid) : Bool := atttypid == numericOid

def cuDelta2Compressed : UInt16 := 0x0005

def cuXORCompressed : UInt16 := 0x0006

def cuCompressMask1 : UInt16 := 0x000F

/-- The bits by which the coders record what they did. -/
def methodBits : UInt16 := 0x007F

/-- Two values of the mode flags that name the same methods. -/
def SameMethods (modes other : UInt16) : Prop := modes &&& methodBits = other &&& methodBits

theorem SameMethods.bit {modes other bit : UInt16} (same : SameMethods modes other)
    (method : methodBits &&& bit = bit) : modes &&& bit = other &&& bit := by
  rw [← method, ← UInt16.and_assoc, ← UInt16.and_assoc, same]

section

variable {modes other : UInt16} (same : SameMethods modes other)

include same

theorem SameMethods.unpackLib (libs : CompressLibs) (outSize : Nat) (buf : List UInt8) :
    IntegerCoder.unpackLib libs modes outSize buf = IntegerCoder.unpackLib libs other outSize buf := by
  simp only [IntegerCoder.unpackLib, @bit _ _ cuLzCompressed same (by decide),
    @bit _ _ cuZlibCompressed same (by decide)]

/-- Flags beyond the methods do not change what the pipeline for integers reads. -/
theorem IntegerCoder.decompress_sameMethods
    (coder : IntegerCoder) (libs : CompressLibs) (buf : List UInt8) (outSize : Nat) :
    coder.decompress libs ⟨buf, modes⟩ outSize = coder.decompress libs ⟨buf, other⟩ outSize := by
  simp only [IntegerCoder.decompress, same.unpackLib,
    @SameMethods.bit _ _ cuDeltaCompressed same (by decide),
    @SameMethods.bit _ _ cuRLECompressed same (by decide)]

theorem StringCoder.decompress_sameMethods (libs : CompressLibs) (buf : List UInt8) (outSize : Nat) :
    StringCoder.decompress libs ⟨buf, modes⟩ outSize = StringCoder.decompress libs ⟨buf, other⟩ outSize := by
  simp only [StringCoder.decompress, StringCoder.decompressWithoutDict,
    StringCoder.decompressNumbers, IntegerCoder.decompress_sameMethods same,
    @SameMethods.bit _ _ cuDicEncode same (by decide),
    @SameMethods.bit _ _ cuLzCompressed same (by decide),
    @SameMethods.bit _ _ cuZlibCompressed same (by decide)]

end

/-- `compress` and `decompress` of a codec, both with the size of one value; `decompress` is told
the size of its output. -/
structure ValueCodec where
  compress : Nat → List UInt8 → List UInt8
  decompress : Nat → List UInt8 → Nat → List UInt8

/-- A codec restores what it compressed, for values of 4 and of 8 bytes. -/
def ValueCodec.RoundTrip (codec : ValueCodec) : Prop :=
  ∀ size source, size = 4 ∨ size = 8 → source ≠ [] → size ∣ source.length →
    codec.decompress size (codec.compress size source) source.length = source

structure SequenceCodecs where
  delta2 : ValueCodec
  xor : ValueCodec

structure SequenceCodecs.RoundTrip (codecs : SequenceCodecs) : Prop where
  delta2 : codecs.delta2.RoundTrip
  xor : codecs.xor.RoundTrip

structure SequenceCodec where
  valueSize : IntSize
  dataType : Oid

namespace SequenceCodec

variable (codec : SequenceCodec) (codecs : SequenceCodecs) (libs : CompressLibs)

def pack (source : List UInt8) : List UInt8 :=
  if attIsTimestamp codec.dataType then codecs.delta2.compress codec.valueSize.1 source
  else if attIsFloat codec.dataType then codecs.xor.compress codec.valueSize.1 source
  else []

def mode : UInt16 :=
  if attIsTimestamp codec.dataType then cuDelta2Compressed else cuXORCompressed

/-- `none` where the source returns -1. -/
def compress (input : CompressionArg1) : Option CompressionArg2 :=
  let packed := codec.pack codecs input.buf
  if input.buf.length ≤ packed.length then none
  else
    let stage := IntegerCoder.libStep libs input.compression input.compressLevel
      ⟨packed, codec.valueSize.1, codec.mode⟩
    some ⟨stage.currInBuf, stage.modes⟩

/-- `none` where zlib does not reach the end of its stream, or where the modes name none of the two
codecs, with which it is not called. -/
def decompress (input : CompressionArg2) (outSize : Nat) : Option (List UInt8) := do
  let unpacked ← IntegerCoder.unpackLib libs input.modes outSize input.buf
  if input.modes &&& cuDelta2Compressed = cuDelta2Compressed then
    some (codecs.delta2.decompress codec.valueSize.1 unpacked outSize)
  else if input.modes &&& cuXORCompressed = cuXORCompressed then
    some (codecs.xor.decompress codec.valueSize.1 unpacked outSize)
  else none

variable {codec codecs libs}

theorem mode_eq : codec.mode = cuDelta2Compressed ∨ codec.mode = cuXORCompressed := by
  unfold mode
  split
  · exact Or.inl rfl
  · exact Or.inr rfl

theorem mode_bits {mode lib : UInt16} (first : mode = cuDelta2Compressed ∨ mode = cuXORCompressed)
    (second : lib = 0 ∨ lib = cuLzCompressed ∨ lib = cuZlibCompressed) :
    (mode ||| lib) &&& cuLzCompressed = lib &&& cuLzCompressed ∧
      (mode ||| lib) &&& cuZlibCompressed = lib &&& cuZlibCompressed ∧
      (mode ||| lib) &&& cuCompressMask1 = mode ∧
      (mode ||| lib) &&& methodBits = mode ||| lib ∧
      ((mode ||| lib) &&& cuDelta2Compressed = cuDelta2Compressed ↔ mode = cuDelta2Compressed) ∧
      ((mode ||| lib) &&& cuXORCompressed = cuXORCompressed ↔ mode = cuXORCompressed) := by
  rcases first with rfl | rfl <;> rcases second with rfl | rfl | rfl <;> decide

theorem unpack_pack (roundTrip : codecs.RoundTrip)
    (typed : attIsTimestamp codec.dataType ∨ attIsFloat codec.dataType)
    (width : codec.valueSize.1.1 = 4 ∨ codec.valueSize.1.1 = 8) {source : List UInt8}
    (nonempty : source ≠ []) (whole : codec.valueSize.1.1 ∣ source.length) :
    (if codec.mode = cuDelta2Compressed then
      codecs.delta2.decompress codec.valueSize.1 (codec.pack codecs source) source.length
    else codecs.xor.decompress codec.valueSize.1 (codec.pack codecs source) source.length) =
      source := by
  unfold mode pack
  by_cases timestamp : attIsTimestamp codec.dataType
  · rw [if_pos timestamp, if_pos timestamp, if_pos rfl]
    exact roundTrip.delta2 _ _ width nonempty whole
  · have float := typed.resolve_left timestamp
    rw [if_neg timestamp, if_neg timestamp, if_pos float, if_neg (by decide)]
    exact roundTrip.xor _ _ width nonempty whole

/-- What was compressed is restored, also under flags beyond the methods. -/
theorem decompress_of_compress (libsBack : libs.RoundTrip) (roundTrip : codecs.RoundTrip)
    (typed : attIsTimestamp codec.dataType ∨ attIsFloat codec.dataType)
    (width : codec.valueSize.1.1 = 4 ∨ codec.valueSize.1.1 = 8) {input : CompressionArg1}
    (nonempty : input.buf ≠ []) (whole : codec.valueSize.1.1 ∣ input.buf.length)
    {result : CompressionArg2} (compressed : codec.compress codecs libs input = some result) :
    result.modes &&& cuCompressMask1 = codec.mode ∧ result.modes &&& methodBits = result.modes ∧
      result.buf.length ≤ input.buf.length ∧ ∀ modes, SameMethods modes result.modes →
        codec.decompress codecs libs ⟨result.buf, modes⟩ input.buf.length = some input.buf := by
  unfold compress at compressed
  dsimp only at compressed
  split at compressed
  · cases compressed
  · rename_i smaller
    obtain rfl := Option.some.inj compressed
    dsimp only
    obtain ⟨lib, libMode, libModes, libBack⟩ := @IntegerCoder.libStep_spec libs libsBack
      input.compression input.compressLevel ⟨codec.pack codecs input.buf, codec.valueSize.1,
        codec.mode⟩ input.buf.length (by dsimp only; omega) input.small
    have shorter := (IntegerCoder.libStep_shrinks libs input.compression input.compressLevel
      ⟨codec.pack codecs input.buf, codec.valueSize.1, codec.mode⟩).length_le
    dsimp only at libModes libBack shorter
    generalize IntegerCoder.libStep libs input.compression input.compressLevel
      ⟨codec.pack codecs input.buf, codec.valueSize.1, codec.mode⟩ = final at *
    obtain ⟨isLz, isZlib, isMode, methods, isDelta2, isXor⟩ := mode_bits (@mode_eq codec) libMode
    rw [← libModes] at isLz isZlib isMode methods isDelta2 isXor
    refine ⟨isMode, methods, by omega, fun modes same => ?_⟩
    have unpacked : IntegerCoder.unpackLib libs modes input.buf.length final.currInBuf =
        some (codec.pack codecs input.buf) := by
      rw [same.unpackLib, ← libBack]
      simp only [IntegerCoder.unpackLib, isLz, isZlib]
    have back := unpack_pack roundTrip typed width nonempty whole
    rw [decompress]
    simp only [unpacked, Option.bind_eq_bind, Option.bind_some,
      @SameMethods.bit _ _ cuDelta2Compressed same (by decide),
      @SameMethods.bit _ _ cuXORCompressed same (by decide), isDelta2, isXor]
    rcases @mode_eq codec with delta2 | xor
    · rw [if_pos delta2] at back ⊢
      rw [back]
    · have other : codec.mode ≠ cuDelta2Compressed := by
        rw [xor]
        decide
      rw [if_neg other] at back ⊢
      rw [if_pos xor, back]

end SequenceCodec

end OpenGauss.CStore
