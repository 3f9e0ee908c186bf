import OpenGauss.CStore.DicCoder
import OpenGauss.CStore.IntegerCoder

/-! The pipeline for strings, `StringCoder` of `cstore_compress.cpp`. -/

namespace OpenGauss.CStore

open Lib SelfSized

def cuDicEncode : UInt16 := 0x0002

/-- The arguments for strings. The output buffer has room for the input, as `CU::Compress` allocates
it. -/
structure StringArg extends CompressionArg1 where
  numVals : Nat
  useDict : Bool
  outSize : Nat
  enough : buf.length ≤ outSize

structure StringCoder where
  adoptRle : Bool
  adoptDict : Bool

/-- The `uint16` codes at the start of a buffer, `count` of them. -/
def dicCodes : Nat → List UInt8 → List Nat
  | 0, _ => []
  | count + 1, buf => leNat (buf.take 2) :: dicCodes count (buf.drop 2)

namespace StringCoder

variable (coder : StringCoder) (libs : CompressLibs) (hashAny : List UInt8 → UInt32)

def codeSize : IntSize := ⟨⟨sizeOfDicCodeType, by decide⟩, by decide⟩

/-- The coder for the codes of a dictionary; their values are set to run from 0 to `max`. -/
def numberCoder (max : Int) : IntegerCoder := ⟨codeSize, coder.adoptRle, some (0, max)⟩

/-- The codes are counted in 16 bits. -/
def numbers (input : StringArg) (codes : List Nat) : CompressionArg1 where
  buf := (leWords sizeOfDicCodeType codes).take (sizeOfDicCodeType * (input.numVals % 2 ^ 16))
  compression := input.compression
  compressLevel := input.compressLevel
  small := by
    have short := List.length_take_le (sizeOfDicCodeType * (input.numVals % 2 ^ 16))
      (leWords sizeOfDicCodeType codes)
    have bound := Nat.mod_lt input.numVals (show 0 < 2 ^ 16 by decide)
    simp only [sizeOfDicCodeType] at *
    omega

/-- Raw codes where the pipeline for integers gives up. -/
def compressNumbers (max : Int) (input : StringArg) (codes : List Nat) : CompressionArg2 :=
  (coder.numberCoder max).compressInner libs (numbers input codes)

/-- The compressed bytes, with the mode where they are an advantage. -/
def compressWithoutDict (input : StringArg) : Option CompressionArg2 :=
  let level := compresslevelTables input.compression input.compressLevel
  let (packed, tempMode) :=
    match input.compression with
    | .high => (libs.deflate level input.buf, cuZlibCompressed)
    | _ => (lz4Compress libs level input.buf, cuLzCompressed)
  packed.map fun packed =>
    ⟨packed, if 0 < packed.length ∧ packed.length < input.buf.length ∧
      packed.length ≤ input.outSize then tempMode else 0⟩

/-- The result with a dictionary, `none` where it is no advantage. -/
def compressWithDict (input : StringArg) : Option CompressionArg2 :=
  match DicData.compress hashAny input.buf input.numVals with
  | none => none
  | some (dict, codes) =>
    let dicCodeSize := input.numVals * sizeOfDicCodeType
    if 0 < dicCodeSize ∧ 0 < dict.totalSize ∧
        dicCodeSize + dict.totalSize < input.buf.length then
      let number := coder.compressNumbers libs (dict.curItemCount - 1) input codes
      some ⟨dict.onDisk ++ number.buf, cuDicEncode ||| number.modes⟩
    else none

/-- `none` where nothing is compressed and 0 is returned. -/
def compressInner (input : StringArg) : Option CompressionArg2 :=
  let dictResult := if input.useDict && coder.adoptDict then
    coder.compressWithDict libs hashAny input else none
  match dictResult with
  | some result => some result
  | none =>
    match compressWithoutDict libs input with
    | some result =>
      if 0 < result.buf.length ∧ result.buf.length < input.buf.length then some result else none
    | none => none

/-- `none` where zlib does not reach the end of its stream. -/
def decompressWithoutDict (input : CompressionArg2) (outSize : Nat) : Option (List UInt8) :=
  if input.modes &&& cuZlibCompressed ≠ 0 then libs.inflate input.buf outSize
  else if input.modes &&& cuLzCompressed ≠ 0 then some (lz4Decompress libs input.buf)
  else some []

def decompressNumbers (input : CompressionArg2) (outSize : Nat) : Option (List Nat) :=
  (IntegerCoder.decompress ⟨codeSize, true, none⟩ libs input outSize).map fun outBuf =>
    dicCodes (outBuf.length / sizeOfDicCodeType % 2 ^ 16) outBuf

def decompress (input : CompressionArg2) (outSize : Nat) : Option (List UInt8) :=
  if input.modes &&& cuDicEncode = 0 then decompressWithoutDict libs input outSize
  else
    let dict := DiskDict.ofDisk input.buf
    (decompressNumbers libs ⟨input.buf.drop dict.totalSize, input.modes⟩ outSize).map dict.decompress

variable {coder libs hashAny}

/-- A bit that one part of the modes does not have is decided by the other part. -/
theorem or_and_of_apart {own other bit : UInt16} (apart : own &&& bit = 0) :
    (own ||| other) &&& bit = other &&& bit := by
  rw [or_and_distrib, apart, UInt16.zero_or]

theorem or_and_self (own other : UInt16) : (own ||| other) &&& own = own := by
  apply UInt16.toBitVec_inj.mp
  rw [UInt16.toBitVec_and, UInt16.toBitVec_or]
  ext bit
  simp only [BitVec.getElem_and, BitVec.getElem_or]
  cases own.toBitVec[bit] <;> simp

/-- The dictionary bit means nothing to the pipeline for integers. -/
theorem decompress_dicEncode (intCoder : IntegerCoder) (buf : List UInt8) (modes : UInt16)
    (outSize : Nat) : intCoder.decompress libs ⟨buf, cuDicEncode ||| modes⟩ outSize =
      intCoder.decompress libs ⟨buf, modes⟩ outSize := by
  have bit {bit : UInt16} (apart : cuDicEncode &&& bit = 0) := @or_and_of_apart _ modes _ apart
  simp only [IntegerCoder.decompress, IntegerCoder.unpackLib,
    bit (show cuDicEncode &&& cuDeltaCompressed = 0 by decide),
    bit (show cuDicEncode &&& cuRLECompressed = 0 by decide),
    bit (show cuDicEncode &&& cuLzCompressed = 0 by decide),
    bit (show cuDicEncode &&& cuZlibCompressed = 0 by decide)]

theorem dicCodes_leWords {codes : List Nat} (fits : ∀ code ∈ codes, code < 256 ^ 2) :
    dicCodes codes.length (leWords 2 codes) = codes := by
  induction codes with
  | nil => rfl
  | cons code codes ih =>
    obtain ⟨first, rest⟩ := List.forall_mem_cons.mp fits
    have length := length_leBytes 2 code
    rw [List.length_cons, dicCodes, leWords_cons, List.take_left' length, leNat_leBytes first,
      List.drop_left' length, ih rest]

theorem decompressNumbers_compressNumbers (roundTrip : libs.RoundTrip) {input : StringArg}
    {codes : List Nat} {max outSize : Nat} (count : codes.length = input.numVals)
    (few : input.numVals ≤ 60000) (nonempty : codes ≠ []) (bound : max < 2 ^ 15)
    (inside : ∀ code ∈ codes, code ≤ max) (enough : input.numVals * 2 ≤ outSize)
    (small : outSize < 2 ^ 31) :
    decompressNumbers libs (coder.compressNumbers libs max input codes) outSize = some codes := by
  have fits : ∀ code ∈ codes, code < 256 ^ 2 := by
    intro code member
    have least := inside code member
    norm_num
    omega
  have whole : (numbers input codes).buf = leWords 2 codes := by
    change (leWords 2 codes).take (2 * (input.numVals % 2 ^ 16)) = _
    rw [Nat.mod_eq_of_lt (by omega), List.take_of_length_le]
    rw [length_leWords, count, Nat.mul_comm]
  have signed {number : Nat} (least : number ≤ max) : signedWord codeSize.1 number = number :=
    if_pos (by change 2 * number < 256 ^ 2; omega)
  have holds {number : Nat} (least : number ≤ max) : codeSize.Holds number := by
    have read := @convertToInt64Data_leBytes codeSize number (by change number < 256 ^ 2; omega) []
    exact ⟨_, read.trans (signed least)⟩
  have supplied : ∀ minMaxVal, (coder.numberCoder max).minMaxVal = some minMaxVal →
      Bounds codeSize minMaxVal (codes.map (signedWord codeSize.1)) := by
    rintro minMaxVal given
    obtain rfl := Option.some.inj given
    refine ⟨holds (Nat.zero_le _), holds le_rfl, ?_⟩
    intro val member
    obtain ⟨code, held, rfl⟩ := List.mem_map.mp member
    rw [signed (inside code held)]
    exact ⟨Int.natCast_nonneg _, Int.ofNat_le.mpr (inside code held)⟩
  have restored := IntegerCoder.decompress_words roundTrip nonempty fits whole
    (by rw [whole, length_leWords, count]; exact enough) small supplied
  have same (result : CompressionArg2) : (coder.numberCoder max).decompress libs result outSize =
      IntegerCoder.decompress ⟨codeSize, true, none⟩ libs result outSize := rfl
  rw [same] at restored
  have length : (leWords 2 codes).length / sizeOfDicCodeType % 2 ^ 16 = codes.length := by
    rw [length_leWords, sizeOfDicCodeType, Nat.mul_div_cancel _ (by decide),
      Nat.mod_eq_of_lt (by omega)]
  rw [decompressNumbers, compressNumbers, restored, Option.map_some, whole, length, dicCodes_leWords fits]

theorem decompress_compressWithDict (roundTrip : libs.RoundTrip) {input : StringArg}
    {values : List Varlena} (count : values.length = input.numVals) (few : values.length ≤ 60000)
    (buf : input.buf = joined values) {result : CompressionArg2}
    (compressed : coder.compressWithDict libs hashAny input = some result) :
    decompress libs result input.buf.length = some input.buf ∧ result.buf.length ≤ input.buf.length := by
  unfold compressWithDict at compressed
  rw [buf, ← count] at compressed
  split at compressed
  · cases compressed
  · rename_i dict codes coding
    obtain ⟨items, holds, coded, bound, smaller⟩ := DicData.compress_spec few coding
    dsimp only at compressed
    split at compressed
    · rename_i better
      obtain rfl := Option.some.inj compressed
      have small := input.small
      rw [buf] at small ⊢
      have codeCount := coded.length_eq
      have filled : codes ≠ [] := by
        rintro rfl
        rw [List.length_nil] at codeCount
        rw [← codeCount] at better
        exact absurd better.1 (by decide)
      have inside : ∀ code ∈ codes, code ≤ dict.curItemCount - 1 := by
        intro code member
        have least := coded.inside code member
        have items := holds.count
        omega
      have counted : 0 < dict.curItemCount := by
        obtain ⟨code, member⟩ := List.exists_mem_of_ne_nil codes filled
        have least := coded.inside code member
        rw [holds.count]
        omega
      have max : ((dict.curItemCount - 1 : Nat) : Int) = dict.curItemCount - 1 := by omega
      have room : input.numVals * 2 ≤ (joined values).length := by
        simp only [sizeOfDicCodeType] at better
        omega
      have numbersBack := @decompressNumbers_compressNumbers coder libs roundTrip input codes
        (dict.curItemCount - 1) (joined values).length (codeCount.trans count) (count ▸ few) filled
        (by omega) inside room small
      rw [max] at numbersBack
      obtain ⟨total, behind, restored⟩ := DiskDict.decompress_ofDisk holds coded few
        (smaller.trans small) (coder.compressNumbers libs (dict.curItemCount - 1) input codes).buf
      have dicBit : (cuDicEncode |||
          (coder.compressNumbers libs (dict.curItemCount - 1) input codes).modes) &&& cuDicEncode ≠
          0 := by
        rw [or_and_self]
        decide
      constructor
      · rw [decompress, if_neg dicBit]
        dsimp only
        rw [total, behind, decompressNumbers, decompress_dicEncode]
        rw [decompressNumbers] at numbersBack
        rw [numbersBack, Option.map_some, restored]
      · have shorter := (coder.numberCoder (dict.curItemCount - 1)).compressInner_length_le libs
          (numbers input codes)
        have taken : (numbers input codes).buf.length ≤ sizeOfDicCodeType * input.numVals :=
          (List.length_take_le _ _).trans (Nat.mul_le_mul_left _ (Nat.mod_le _ _))
        dsimp only
        rw [List.length_append, holds.length_onDisk, compressNumbers]
        simp only [sizeOfDicCodeType] at better taken
        omega
    · cases compressed

variable (packed : List UInt8) (outSize : Nat)

theorem decompress_zlib :
    decompress libs ⟨packed, cuZlibCompressed⟩ outSize = libs.inflate packed outSize := by
  unfold decompress decompressWithoutDict
  dsimp only
  rw [if_pos (by decide), if_pos (by decide)]

theorem decompress_lz4 :
    decompress libs ⟨packed, cuLzCompressed⟩ outSize = some (lz4Decompress libs packed) := by
  unfold decompress decompressWithoutDict
  dsimp only
  rw [if_pos (by decide), if_neg (by decide), if_pos (by decide)]

theorem decompress_compressWithoutDict (roundTrip : libs.RoundTrip) {input : StringArg}
    {result : CompressionArg2} (compressed : compressWithoutDict libs input = some result)
    (nonempty : 0 < result.buf.length) (smaller : result.buf.length < input.buf.length) :
    decompress libs result input.buf.length = some input.buf := by
  have enough := smaller.le.trans input.enough
  unfold compressWithoutDict at compressed
  dsimp only at compressed
  split at compressed
  · obtain ⟨packed, deflated, rfl⟩ := Option.map_eq_some_iff.mp compressed
    dsimp only at nonempty smaller enough
    rw [if_pos ⟨nonempty, smaller, enough⟩]
    exact (decompress_zlib packed _).trans (roundTrip.zlib _ _ _ _ deflated le_rfl)
  · obtain ⟨packed, shorter, rfl⟩ := Option.map_eq_some_iff.mp compressed
    dsimp only at nonempty smaller enough
    rw [if_pos ⟨nonempty, smaller, enough⟩]
    exact (decompress_lz4 packed _).trans
      (congrArg some (lz4Decompress_lz4Compress roundTrip input.small shorter))

theorem compressWithDict_modes {coder : StringCoder} {hashAny : List UInt8 → UInt32}
    {input : StringArg} {result : CompressionArg2}
    (compressed : coder.compressWithDict libs hashAny input = some result) :
    OfCoder result.modes ∧ result.modes ≠ 0 := by
  unfold compressWithDict at compressed
  split at compressed
  · cases compressed
  · dsimp only at compressed
    split at compressed
    · obtain rfl := Option.some.inj compressed
      have dictionary : OfCoder cuDicEncode := by decide
      refine ⟨dictionary.or (IntegerCoder.compressInner_ofCoder _ _ _), fun unset => ?_⟩
      have marked := (or_and_self cuDicEncode _).symm.trans (congrArg (· &&& cuDicEncode) unset)
      exact absurd marked (by decide)
    · cases compressed

theorem compressWithoutDict_modes {input : StringArg} {result : CompressionArg2}
    (compressed : compressWithoutDict libs input = some result) (nonempty : 0 < result.buf.length)
    (smaller : result.buf.length < input.buf.length) :
    OfCoder result.modes ∧ result.modes ≠ 0 := by
  have enough := smaller.le.trans input.enough
  have zlib : OfCoder cuZlibCompressed ∧ cuZlibCompressed ≠ 0 := by decide
  have lz : OfCoder cuLzCompressed ∧ cuLzCompressed ≠ 0 := by decide
  unfold compressWithoutDict at compressed
  dsimp only at compressed
  split at compressed
  · obtain ⟨packed, deflated, rfl⟩ := Option.map_eq_some_iff.mp compressed
    dsimp only at nonempty smaller enough ⊢
    rw [if_pos ⟨nonempty, smaller, enough⟩]
    exact zlib
  · obtain ⟨packed, shorter, rfl⟩ := Option.map_eq_some_iff.mp compressed
    dsimp only at nonempty smaller enough ⊢
    rw [if_pos ⟨nonempty, smaller, enough⟩]
    exact lz

/-- What is compressed is not longer, is marked by modes of the two pipelines, and comes back. -/
theorem compressInner_spec {coder : StringCoder} {hashAny : List UInt8 → UInt32}
    (roundTrip : libs.RoundTrip) {input : StringArg}
    (strings : input.useDict = true → ∃ values : List Varlena,
      values.length = input.numVals ∧ values.length ≤ 60000 ∧ input.buf = joined values)
    {result : CompressionArg2} (compressed : coder.compressInner libs hashAny input = some result) :
    decompress libs result input.buf.length = some input.buf ∧
      result.buf.length ≤ input.buf.length ∧ OfCoder result.modes ∧ result.modes ≠ 0 := by
  unfold compressInner at compressed
  dsimp only at compressed
  split at compressed
  · rename_i chosen withDict
    obtain rfl := Option.some.inj compressed
    split at withDict
    · rename_i used
      obtain ⟨values, count, few, buf⟩ := strings (Bool.and_eq_true_iff.mp used).1
      obtain ⟨back, length⟩ := decompress_compressWithDict roundTrip count few buf withDict
      exact ⟨back, length, compressWithDict_modes withDict⟩
    · cases withDict
  · split at compressed
    · rename_i plain packed
      split at compressed
      · rename_i better
        obtain rfl := Option.some.inj compressed
        exact ⟨decompress_compressWithoutDict roundTrip packed better.1 better.2, better.2.le,
          compressWithoutDict_modes packed better.1 better.2⟩
      · cases compressed
    · cases compressed

/-- Decompression gives back the array of strings. Values of a variable-length type come with their
headers, and their number fits the codes; no dictionary is tried for a fixed length. -/
theorem decompress_of_compressInner (coder : StringCoder) (libs : CompressLibs)
    (hashAny : List UInt8 → UInt32) (roundTrip : libs.RoundTrip) (input : StringArg)
    (strings : input.useDict = true → ∃ values : List Varlena,
      values.length = input.numVals ∧ values.length ≤ 60000 ∧ input.buf = joined values)
    (result : CompressionArg2) (compressed : coder.compressInner libs hashAny input = some result) :
    decompress libs result input.buf.length = some input.buf :=
  (compressInner_spec roundTrip strings compressed).1

def sampleString : Varlena := ⟨[9, 97, 98, 99], by decide, by simp [varsizeAny]⟩

/-- Eight equal strings, to be compressed at the lowest level. -/
def sampleStrings : StringArg :=
  { buf := joined (List.replicate 8 sampleString)
    compression := .low
    compressLevel := ⟨0, level_pos⟩
    small := by decide
    numVals := 8
    useDict := true
    outSize := 64
    enough := by decide }

theorem decompress_of_compressInner_sample : decompress IntegerCoder.sampleLibs
      ⟨[12, 0, 0, 0, 1, 0, 0, 0, 9, 97, 98, 99] ++
        (compressNumbers ⟨true, true⟩ IntegerCoder.sampleLibs 0 sampleStrings (List.replicate 8 0)).buf,
        cuDicEncode ||| (compressNumbers ⟨true, true⟩ IntegerCoder.sampleLibs 0 sampleStrings
          (List.replicate 8 0)).modes⟩ 32 = some sampleStrings.buf :=
  decompress_of_compressInner ⟨true, true⟩ IntegerCoder.sampleLibs (fun _ => 0)
    IntegerCoder.sampleLibs_roundTrip sampleStrings
    (fun _ => ⟨List.replicate 8 sampleString, rfl, by decide, rfl⟩) _ rfl

end StringCoder

end OpenGauss.CStore
