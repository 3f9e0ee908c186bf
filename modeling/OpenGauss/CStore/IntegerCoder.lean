import OpenGauss.CStore.CompressLibs
import OpenGauss.CStore.DeltaCoder

/-! The pipeline for integers, `IntegerCoder` of `cstore_compress.cpp`: delta, then runs, then LZ4
or zlib, each kept only where it saves space. -/

namespace OpenGauss.CStore

open Lib

def cuDeltaCompressed : UInt16 := 0x0001

def cuRLECompressed : UInt16 := 0x0008

def cuLzCompressed : UInt16 := 0x0010

def cuZlibCompressed : UInt16 := 0x0020

/-- The constructor of the first version. -/
def RleCoder.v1 (oneValSize : ValSize) : RleCoder :=
  ⟨oneValSize, rleMinRepeatsV1, oneValSize.2.1, oneValSize.2.2⟩

/-- The widths `ConvertToInt64Data` and its like switch on. -/
abbrev IntSize := {size : ValSize // size.1 = 1 ∨ size.1 = 2 ∨ size.1 = 4 ∨ size.1 = 8}

def convertToInt64Data (inBuf : List UInt8) (eachValSize : IntSize) : Int :=
  signedWord eachValSize.1 (leNat (inBuf.take eachValSize.1))

def int64DataConvertTo (inVal : Int) (eachValSize : IntSize) : List UInt8 :=
  writeInt64 eachValSize.1 inVal

/-- The integers of an array, `count` of them. -/
def intVals (eachValSize : IntSize) : Nat → List UInt8 → List Int
  | 0, _ => []
  | count + 1, inBuf =>
    convertToInt64Data inBuf eachValSize :: intVals eachValSize count (inBuf.drop eachValSize.1)

def minMaxStep (found : Int × Int) (val : Int) : Int × Int :=
  if val < found.1 then (val, found.2) else if found.2 < val then (found.1, val) else found

def computeMinMaxVal : List Int → Int × Int
  | [] => (0, 0)
  | first :: vals => vals.foldl minMaxStep (first, first)

def computeIntMinMaxVal (inBuf : List UInt8) (eachValSize : IntSize) : Int × Int :=
  computeMinMaxVal (intVals eachValSize (inBuf.length / eachValSize.1) inBuf)

/-- The arguments of a compression; their size is an `int`. -/
structure CompressionArg1 where
  buf : List UInt8
  compression : Compression
  compressLevel : Fin 4
  small : buf.length < 2 ^ 31

structure CompressionArg2 where
  buf : List UInt8
  modes : UInt16
deriving DecidableEq, Repr

/-- `minMaxVal` is set by `SetMinMaxVal`. -/
structure IntegerCoder where
  eachValSize : IntSize
  adoptRle : Bool
  minMaxVal : Option (Int × Int)

/-- Where the compression stands: the bytes that are its input next, how wide their values are, and
the modes so far. -/
structure Stage where
  currInBuf : List UInt8
  outValSize : ValSize
  modes : UInt16

namespace IntegerCoder

variable (coder : IntegerCoder) (libs : CompressLibs)

def deltaStep (minVal maxVal : Int) (inBuf : List UInt8) : Stage :=
  let size := coder.eachValSize.1
  let delta := DeltaCoder.forCompress minVal maxVal
  if delta.outValSize < size then
    let cmpr := delta.compress inBuf size
    if cmpr.length + size * 2 < inBuf.length then ⟨cmpr, delta.outValSize, cuDeltaCompressed⟩
    else ⟨inBuf, size, 0⟩
  else ⟨inBuf, delta.outValSize, 0⟩

/-- A stage is kept where its result is not empty and smaller than its input. -/
def keep (stage : Stage) (cmpr : Option (List UInt8)) (mode : UInt16) : Stage :=
  match cmpr with
  | none => stage
  | some cmpr =>
    if 0 < cmpr.length ∧ cmpr.length < stage.currInBuf.length then
      ⟨cmpr, stage.outValSize, stage.modes ||| mode⟩
    else stage

def rleStep (stage : Stage) : Stage :=
  if coder.adoptRle then
    keep stage (some ((RleCoder.v1 stage.outValSize).innerCompress stage.currInBuf)) cuRLECompressed
  else stage

def libStep (compression : Compression) (compressLevel : Fin 4) (stage : Stage) : Stage :=
  let level := compresslevelTables compression compressLevel
  match compression with
  | .low => stage
  | .middle => keep stage (lz4Compress libs level stage.currInBuf) cuLzCompressed
  | .high => keep stage (libs.deflate level stage.currInBuf) cuZlibCompressed

def insertMinMaxVal (minVal maxVal : Int) (buf : List UInt8) : List UInt8 :=
  int64DataConvertTo minVal coder.eachValSize ++ int64DataConvertTo maxVal coder.eachValSize ++ buf

/-- With no mode set the source returns 0 and the caller keeps its input, which `buf` then is. -/
def compressInner (input : CompressionArg1) : CompressionArg2 :=
  let (minVal, maxVal) :=
    coder.minMaxVal.getD (computeIntMinMaxVal input.buf coder.eachValSize)
  let stage := libStep libs input.compression input.compressLevel
    (coder.rleStep (coder.deltaStep minVal maxVal input.buf))
  if stage.modes &&& cuDeltaCompressed ≠ 0 then
    ⟨coder.insertMinMaxVal minVal maxVal stage.currInBuf, stage.modes⟩
  else ⟨stage.currInBuf, stage.modes⟩

/-- `none` where zlib does not reach the end of its stream. -/
def unpackLib (modes : UInt16) (outSize : Nat) (nextInBuf : List UInt8) : Option (List UInt8) :=
  if modes &&& cuLzCompressed ≠ 0 then some (lz4Decompress libs nextInBuf)
  else if modes &&& cuZlibCompressed ≠ 0 then libs.inflate nextInBuf outSize
  else some nextInBuf

def decompress (input : CompressionArg2) (outSize : Nat) : Option (List UInt8) :=
  let size := coder.eachValSize
  if input.modes &&& cuDeltaCompressed ≠ 0 then do
    let minVal := convertToInt64Data input.buf size
    let maxVal := convertToInt64Data (input.buf.drop size.1) size
    let inValSize := deltaGetBytesNum minVal maxVal
    let unpacked ← unpackLib libs input.modes outSize (input.buf.drop (size.1 * 2))
    let distances :=
      if input.modes &&& cuRLECompressed ≠ 0 then (RleCoder.v1 inValSize).innerDecompress unpacked
      else unpacked
    some ((DeltaCoder.forDecompress minVal size.1).decompress distances inValSize)
  else do
    let unpacked ← unpackLib libs input.modes outSize input.buf
    some (if input.modes &&& cuRLECompressed ≠ 0 then
      (RleCoder.v1 size.1).innerDecompress unpacked else unpacked)

end IntegerCoder

/-- The mode bits of the pipelines for integers and for strings. -/
def coderBits : UInt16 := 0x003B

def OfCoder (modes : UInt16) : Prop := modes &&& coderBits = modes

theorem or_and_distrib (left right mask : UInt16) :
    (left ||| right) &&& mask = (left &&& mask) ||| (right &&& mask) := by
  apply UInt16.toBitVec_inj.mp
  simp only [UInt16.toBitVec_and, UInt16.toBitVec_or, BitVec.and_or_distrib_right]

instance (modes : UInt16) : Decidable (OfCoder modes) :=
  inferInstanceAs (Decidable (modes &&& coderBits = modes))

theorem OfCoder.or {left right : UInt16} (first : OfCoder left) (second : OfCoder right) :
    OfCoder (left ||| right) := by
  rw [OfCoder, or_and_distrib, first, second]

namespace IntegerCoder

theorem keep_ofCoder {stage : Stage} {cmpr : Option (List UInt8)} {mode : UInt16}
    (before : OfCoder stage.modes) (own : OfCoder mode) : OfCoder (keep stage cmpr mode).modes := by
  unfold keep
  split
  · exact before
  · split
    · exact before.or own
    · exact before

theorem deltaStep_ofCoder (coder : IntegerCoder) (minVal maxVal : Int) (inBuf : List UInt8) :
    OfCoder (coder.deltaStep minVal maxVal inBuf).modes := by
  have unset : OfCoder 0 := by decide
  have delta : OfCoder cuDeltaCompressed := by decide
  unfold deltaStep
  dsimp only
  split
  · split
    · exact delta
    · exact unset
  · exact unset

theorem rleStep_ofCoder (coder : IntegerCoder) {stage : Stage} (before : OfCoder stage.modes) :
    OfCoder (coder.rleStep stage).modes := by
  unfold rleStep
  split
  · exact keep_ofCoder before (by decide)
  · exact before

theorem libStep_ofCoder (libs : CompressLibs) (compression : Compression) (level : Fin 4)
    {stage : Stage} (before : OfCoder stage.modes) :
    OfCoder (libStep libs compression level stage).modes := by
  cases compression with
  | low => exact before
  | middle => exact keep_ofCoder before (by decide)
  | high => exact keep_ofCoder before (by decide)

theorem compressInner_ofCoder (coder : IntegerCoder) (libs : CompressLibs)
    (input : CompressionArg1) : OfCoder (coder.compressInner libs input).modes := by
  have stages (minVal maxVal : Int) := libStep_ofCoder libs input.compression input.compressLevel
    (rleStep_ofCoder coder (deltaStep_ofCoder coder minVal maxVal input.buf))
  unfold compressInner
  dsimp only
  split
  · exact stages _ _
  · exact stages _ _

end IntegerCoder

/-- A value of the integer type: one that is read from some bytes. -/
def IntSize.Holds (size : IntSize) (val : Int) : Prop :=
  ∃ inBuf, convertToInt64Data inBuf size = val

theorem convertToInt64Data_leBytes {size : IntSize} {word : Nat} (fits : word < 256 ^ size.1.1)
    (rest : List UInt8) :
    convertToInt64Data (leBytes size.1 word ++ rest) size = signedWord size.1 word := by
  have read := congrArg Prod.fst (RleCoder.readData_leBytes fits rest)
  exact congrArg (signedWord size.1) read

/-- A value of the type is read back where it was stored. -/
theorem IntSize.Holds.stored {size : IntSize} {val : Int} (holds : size.Holds val) (rest : List UInt8) :
    convertToInt64Data (int64DataConvertTo val size ++ rest) size = val := by
  obtain ⟨inBuf, rfl⟩ := holds
  have fits : leNat (inBuf.take size.1) < 256 ^ size.1.1 :=
    (leNat_lt _).trans_le (Nat.pow_le_pow_right (by decide) (List.length_take_le _ _))
  have word : int64DataConvertTo (convertToInt64Data inBuf size) size =
      leBytes size.1 (leNat (inBuf.take size.1)) :=
    writeInt64_eq size.1.2.2 (signedWord_modEq _ _)
  rw [word, convertToInt64Data_leBytes fits, convertToInt64Data]

theorem length_int64DataConvertTo (val : Int) (size : IntSize) :
    (int64DataConvertTo val size).length = size.1 :=
  length_leBytes _ _

theorem intVals_leWords {size : IntSize} {values : List Nat}
    (fits : ∀ value ∈ values, value < 256 ^ size.1.1) :
    intVals size values.length (leWords size.1 values) = values.map (signedWord size.1) := by
  induction values with
  | nil => rfl
  | cons value values ih =>
    obtain ⟨first, rest⟩ := List.forall_mem_cons.mp fits
    rw [List.length_cons, intVals, leWords_cons, convertToInt64Data_leBytes first,
      List.drop_left' (length_leBytes _ _), ih rest, List.map_cons]

theorem minMaxStep_bounds (found : Int × Int) (ordered : found.1 ≤ found.2) (val : Int) :
    (minMaxStep found val).1 ≤ found.1 ∧ found.2 ≤ (minMaxStep found val).2 ∧
      (minMaxStep found val).1 ≤ val ∧ val ≤ (minMaxStep found val).2 := by
  unfold minMaxStep
  split
  · simp only
    omega
  · split
    · simp only
      omega
    · omega

theorem foldl_minMaxStep_bounds (vals : List Int) (found : Int × Int) (ordered : found.1 ≤ found.2) :
    (vals.foldl minMaxStep found).1 ≤ found.1 ∧ found.2 ≤ (vals.foldl minMaxStep found).2 ∧
      ∀ val ∈ vals, (vals.foldl minMaxStep found).1 ≤ val ∧ val ≤ (vals.foldl minMaxStep found).2 := by
  induction vals generalizing found with
  | nil => exact ⟨le_rfl, le_rfl, by simp⟩
  | cons val vals ih =>
    obtain ⟨low, high, under, over'⟩ := minMaxStep_bounds found ordered val
    obtain ⟨lower, higher, inside⟩ := ih (minMaxStep found val) (under.trans over')
    exact ⟨lower.trans low, high.trans higher,
      List.forall_mem_cons.mpr ⟨⟨lower.trans under, over'.trans higher⟩, inside⟩⟩

theorem foldl_minMaxStep_mem (vals : List Int) (found : Int × Int) {Good : Int → Prop}
    (low : Good found.1) (high : Good found.2) (good : ∀ val ∈ vals, Good val) :
    Good (vals.foldl minMaxStep found).1 ∧ Good (vals.foldl minMaxStep found).2 := by
  induction vals generalizing found with
  | nil => exact ⟨low, high⟩
  | cons val vals ih =>
    obtain ⟨here, later⟩ := List.forall_mem_cons.mp good
    unfold List.foldl minMaxStep
    split
    · exact ih _ here high later
    · split
      · exact ih _ low here later
      · exact ih _ low high later

/-- A stage does not lengthen its input and leaves the mark of the delta stage. -/
structure Stage.Shrinks (before after : Stage) : Prop where
  length_le : after.currInBuf.length ≤ before.currInBuf.length
  delta : after.modes &&& cuDeltaCompressed = before.modes &&& cuDeltaCompressed

theorem Stage.Shrinks.refl (stage : Stage) : stage.Shrinks stage := ⟨le_rfl, rfl⟩

namespace IntegerCoder

theorem keep_shrinks (stage : Stage) (cmpr : Option (List UInt8)) {mode : UInt16}
    (apart : mode &&& cuDeltaCompressed = 0) : stage.Shrinks (keep stage cmpr mode) := by
  unfold keep
  split
  · exact .refl stage
  · split
    · rename_i smaller
      refine ⟨smaller.2.le, ?_⟩
      dsimp only
      rw [or_and_distrib, apart, UInt16.or_zero]
    · exact .refl stage

theorem rleStep_shrinks (coder : IntegerCoder) (stage : Stage) : stage.Shrinks (coder.rleStep stage) := by
  unfold rleStep
  split
  · exact keep_shrinks stage _ (by decide)
  · exact .refl stage

theorem libStep_shrinks (libs : CompressLibs) (compression : Compression) (level : Fin 4)
    (stage : Stage) : stage.Shrinks (libStep libs compression level stage) := by
  cases compression with
  | low => exact .refl stage
  | middle => exact keep_shrinks stage _ (by decide)
  | high => exact keep_shrinks stage _ (by decide)

/-- The delta stage leaves room for the two values that mark it. -/
theorem deltaStep_length (coder : IntegerCoder) (minVal maxVal : Int) (inBuf : List UInt8) :
    (coder.deltaStep minVal maxVal inBuf).currInBuf.length ≤ inBuf.length ∧
      ((coder.deltaStep minVal maxVal inBuf).modes &&& cuDeltaCompressed ≠ 0 →
        (coder.deltaStep minVal maxVal inBuf).currInBuf.length + coder.eachValSize.1.1 * 2 <
          inBuf.length) := by
  have unmarked : (0 : UInt16) &&& cuDeltaCompressed = 0 := by decide
  unfold deltaStep
  dsimp only
  split
  · split
    · rename_i smaller
      exact ⟨by dsimp only; omega, fun _ => smaller⟩
    · exact ⟨le_rfl, fun marked => absurd unmarked marked⟩
  · exact ⟨le_rfl, fun marked => absurd unmarked marked⟩

theorem compressInner_length_le (coder : IntegerCoder) (libs : CompressLibs) (input : CompressionArg1) :
    (coder.compressInner libs input).buf.length ≤ input.buf.length := by
  unfold compressInner
  dsimp only
  generalize (coder.minMaxVal.getD _).1 = minVal
  generalize (coder.minMaxVal.getD _).2 = maxVal
  obtain ⟨shorter, room⟩ := coder.deltaStep_length minVal maxVal input.buf
  generalize coder.deltaStep minVal maxVal input.buf = stage at *
  have run := coder.rleStep_shrinks stage
  have lib := libStep_shrinks libs input.compression input.compressLevel (coder.rleStep stage)
  have length := lib.length_le.trans run.length_le
  split
  · rename_i marked
    rw [lib.delta, run.delta] at marked
    have fits := room marked
    simp only [insertMinMaxVal, List.length_append, length_int64DataConvertTo]
    omega
  · exact length.trans shorter

end IntegerCoder

/-- The two values bound the integers, and they are integers of the same type. -/
structure Bounds (size : IntSize) (minMaxVal : Int × Int) (vals : List Int) : Prop where
  minHolds : size.Holds minMaxVal.1
  maxHolds : size.Holds minMaxVal.2
  within : ∀ val ∈ vals, minMaxVal.1 ≤ val ∧ val ≤ minMaxVal.2

theorem bounds_computeMinMaxVal {size : IntSize} {vals : List Int} (nonempty : vals ≠ [])
    (holds : ∀ val ∈ vals, size.Holds val) : Bounds size (computeMinMaxVal vals) vals := by
  cases vals with
  | nil => exact absurd rfl nonempty
  | cons first vals =>
    obtain ⟨here, later⟩ := List.forall_mem_cons.mp holds
    obtain ⟨low, high⟩ := foldl_minMaxStep_mem vals (first, first) here here later
    obtain ⟨under, above, inside⟩ := foldl_minMaxStep_bounds vals (first, first) le_rfl
    exact ⟨low, high, List.forall_mem_cons.mpr ⟨⟨under, above⟩, inside⟩⟩

theorem signedWord_range {width word : Nat} (fits : word < 256 ^ width) :
    -(256 : Int) ^ width ≤ 2 * signedWord width word ∧ 2 * signedWord width word < 256 ^ width := by
  zify at fits
  unfold signedWord
  split
  · rename_i low
    zify at low
    omega
  · rename_i high
    zify at high
    omega

theorem IntSize.Holds.range {size : IntSize} {val : Int} (holds : size.Holds val) :
    -(256 : Int) ^ size.1.1 ≤ 2 * val ∧ 2 * val < 256 ^ size.1.1 := by
  obtain ⟨inBuf, rfl⟩ := holds
  exact signedWord_range ((leNat_lt _).trans_le (Nat.pow_le_pow_right (by decide) (List.length_take_le _ _)))

/-- The distance of two integers of a type fits the width of the type. -/
theorem Bounds.spread {size : IntSize} {minMaxVal : Int × Int} {vals : List Int}
    (bounds : Bounds size minMaxVal vals) : minMaxVal.2 - minMaxVal.1 < 256 ^ size.1.1 := by
  have low := bounds.minHolds.range.1
  have high := bounds.maxHolds.range.2
  omega

theorem width_le (size : ValSize) : (256 : Int) ^ size.1 ≤ 2 ^ 64 := by
  have power : (2 : Int) ^ 64 = 256 ^ 8 := by norm_num
  rw [power]
  exact pow_le_pow_right₀ (by norm_num) size.2.2

/-- The bytes of a stage are words of its width. -/
structure Stage.Words (stage : Stage) (words : List Nat) : Prop where
  bytes : stage.currInBuf = leWords stage.outValSize words
  nonempty : words ≠ []
  fits : ∀ word ∈ words, word < 256 ^ stage.outValSize.1

/-- What the delta stage leaves: the distances, marked as such, or the values. -/
inductive DeltaDone (size : IntSize) (minVal maxVal : Int) (values : List Nat) : Stage → Prop
  | distances (smaller : (leWords (deltaGetBytesNum minVal maxVal)
        (values.map (distance size.1 minVal))).length < (leWords size.1 values).length) :
      DeltaDone size minVal maxVal values
        ⟨leWords (deltaGetBytesNum minVal maxVal) (values.map (distance size.1 minVal)),
          deltaGetBytesNum minVal maxVal, cuDeltaCompressed⟩
  | values : DeltaDone size minVal maxVal values ⟨leWords size.1 values, size.1, 0⟩

section

variable {size : IntSize} {minVal maxVal : Int} {values : List Nat} {stage : Stage}
  (done : DeltaDone size minVal maxVal values stage)

include done

theorem DeltaDone.length_le : stage.currInBuf.length ≤ (leWords size.1 values).length := by
  cases done with
  | distances smaller => exact smaller.le
  | values => exact le_rfl

theorem DeltaDone.modes_eq : stage.modes = 0 ∨ stage.modes = cuDeltaCompressed := by
  cases done with
  | distances => exact Or.inr rfl
  | values => exact Or.inl rfl

end

namespace IntegerCoder

variable {coder : IntegerCoder} {libs : CompressLibs} {minVal maxVal : Int} {values : List Nat}
  (nonempty : values ≠ []) (fits : ∀ value ∈ values, value < 256 ^ coder.eachValSize.1.1)
  (bounds : Bounds coder.eachValSize (minVal, maxVal) (values.map (signedWord coder.eachValSize.1)))

include bounds in
theorem within : ∀ value ∈ values, minVal ≤ signedWord coder.eachValSize.1 value ∧
    signedWord coder.eachValSize.1 value ≤ maxVal :=
  fun _ member => bounds.within _ (List.mem_map_of_mem member)

include nonempty fits bounds in
theorem deltaStep_done : DeltaDone coder.eachValSize minVal maxVal values
    (coder.deltaStep minVal maxVal (leWords coder.eachValSize.1 values)) := by
  have spread : maxVal - minVal < 256 ^ coder.eachValSize.1.1 := bounds.spread
  have bound := spread.trans_le (width_le coder.eachValSize.1)
  have ordered : minVal ≤ maxVal := by
    obtain ⟨value, member⟩ := List.exists_mem_of_ne_nil values nonempty
    exact (within bounds value member).1.trans (within bounds value member).2
  have narrow := deltaGetBytesNum_le coder.eachValSize.1.2.1 ordered spread bound
  have packed := DeltaCoder.compress_leWords nonempty fits (within bounds) narrow
  unfold deltaStep
  dsimp only [DeltaCoder.forCompress] at packed ⊢
  split
  · rw [packed]
    split
    · rename_i smaller
      exact .distances (by omega)
    · exact .values
  · rename_i wide
    have same : deltaGetBytesNum minVal maxVal = coder.eachValSize.1 :=
      Subtype.ext (le_antisymm narrow (Nat.not_lt.mp wide))
    rw [same]
    exact .values

include nonempty fits bounds in
theorem DeltaDone.words {stage : Stage} (done : DeltaDone coder.eachValSize minVal maxVal values stage) :
    ∃ words, stage.Words words := by
  cases done with
  | distances smaller =>
    have bound := bounds.spread.trans_le (width_le coder.eachValSize.1)
    refine ⟨_, rfl, by simpa using nonempty, ?_⟩
    intro far member
    obtain ⟨_, held, rfl⟩ := List.mem_map.mp member
    exact distance_lt (within bounds) bound _ held
  | values => exact ⟨values, rfl, nonempty, fits⟩

theorem rleStep_spec {stage : Stage} {words : List Nat} (holds : stage.Words words) :
    ∃ mode, (mode = 0 ∨ mode = cuRLECompressed) ∧ (coder.rleStep stage).modes = stage.modes ||| mode ∧
      (coder.rleStep stage).currInBuf.length ≤ stage.currInBuf.length ∧
      (if mode ≠ 0 then
        (RleCoder.v1 stage.outValSize).innerDecompress (coder.rleStep stage).currInBuf
      else (coder.rleStep stage).currInBuf) = stage.currInBuf := by
  have unchanged : ∃ mode, (mode = 0 ∨ mode = cuRLECompressed) ∧ stage.modes = stage.modes ||| mode ∧
      stage.currInBuf.length ≤ stage.currInBuf.length ∧
      (if mode ≠ 0 then (RleCoder.v1 stage.outValSize).innerDecompress stage.currInBuf
      else stage.currInBuf) = stage.currInBuf :=
    ⟨0, Or.inl rfl, by simp, le_rfl, by simp⟩
  unfold rleStep
  split
  · unfold keep
    dsimp only
    split
    · rename_i smaller
      refine ⟨cuRLECompressed, Or.inr rfl, rfl, smaller.2.le, ?_⟩
      rw [if_pos (by decide), holds.bytes]
      have configured : (RleCoder.v1 stage.outValSize).Configured := Or.inl rfl
      exact RleCoder.innerDecompress_leWords configured holds.nonempty holds.fits
    · exact unchanged
  · exact unchanged

theorem libStep_spec (roundTrip : libs.RoundTrip) (compression : Compression) (level : Fin 4)
    {stage : Stage} {outSize : Nat} (room : stage.currInBuf.length ≤ outSize)
    (small : outSize < 2 ^ 31) :
    ∃ mode, (mode = 0 ∨ mode = cuLzCompressed ∨ mode = cuZlibCompressed) ∧
      (libStep libs compression level stage).modes = stage.modes ||| mode ∧
      unpackLib libs mode outSize (libStep libs compression level stage).currInBuf =
        some stage.currInBuf := by
  have unchanged : ∃ mode, (mode = 0 ∨ mode = cuLzCompressed ∨ mode = cuZlibCompressed) ∧
      stage.modes = stage.modes ||| mode ∧
      unpackLib libs mode outSize stage.currInBuf = some stage.currInBuf :=
    ⟨0, Or.inl rfl, by simp, by simp [unpackLib]⟩
  cases compression with
  | low => exact unchanged
  | middle =>
    simp only [libStep]
    cases packed : lz4Compress libs (compresslevelTables .middle level) stage.currInBuf with
    | none => exact unchanged
    | some cmpr =>
      unfold keep
      dsimp only
      split
      · refine ⟨cuLzCompressed, Or.inr (Or.inl rfl), rfl, ?_⟩
        rw [unpackLib, if_pos (by decide),
          lz4Decompress_lz4Compress roundTrip (room.trans_lt small) packed]
      · exact unchanged
  | high =>
    simp only [libStep]
    cases packed : libs.deflate (compresslevelTables .high level) stage.currInBuf with
    | none => exact unchanged
    | some cmpr =>
      unfold keep
      dsimp only
      split
      · refine ⟨cuZlibCompressed, Or.inr (Or.inr rfl), rfl, ?_⟩
        rw [unpackLib, if_neg (by decide), if_pos (by decide)]
        exact roundTrip.zlib _ _ _ _ packed room
      · exact unchanged

theorem mode_bits {base run lib : UInt16} (first : base = 0 ∨ base = cuDeltaCompressed)
    (second : run = 0 ∨ run = cuRLECompressed)
    (third : lib = 0 ∨ lib = cuLzCompressed ∨ lib = cuZlibCompressed) :
    (base ||| run ||| lib) &&& cuDeltaCompressed = base ∧ (base ||| run ||| lib) &&& cuRLECompressed = run ∧
      (base ||| run ||| lib) &&& cuLzCompressed = lib &&& cuLzCompressed ∧
      (base ||| run ||| lib) &&& cuZlibCompressed = lib &&& cuZlibCompressed := by
  rcases first with rfl | rfl <;> rcases second with rfl | rfl <;>
    rcases third with rfl | rfl | rfl <;> decide

/-- Reading back behind the two values that mark the delta stage. -/
theorem decompress_marked {modes run : UInt16} {outSize : Nat} {buf middle distances : List UInt8}
    (minHolds : coder.eachValSize.Holds minVal) (maxHolds : coder.eachValSize.Holds maxVal)
    (isDelta : modes &&& cuDeltaCompressed = cuDeltaCompressed)
    (isRun : modes &&& cuRLECompressed = run)
    (libBack : unpackLib libs modes outSize buf = some middle)
    (runBack : (if run ≠ 0 then
      (RleCoder.v1 (deltaGetBytesNum minVal maxVal)).innerDecompress middle else middle) =
        distances) :
    coder.decompress libs ⟨coder.insertMinMaxVal minVal maxVal buf, modes⟩ outSize =
      some ((DeltaCoder.forDecompress minVal coder.eachValSize.1).decompress distances
        (deltaGetBytesNum minVal maxVal)) := by
  have minLength := length_int64DataConvertTo minVal coder.eachValSize
  have maxLength := length_int64DataConvertTo maxVal coder.eachValSize
  have minRead : convertToInt64Data (coder.insertMinMaxVal minVal maxVal buf) coder.eachValSize =
      minVal := by
    rw [insertMinMaxVal, List.append_assoc]
    exact minHolds.stored _
  have maxRead : convertToInt64Data
      ((coder.insertMinMaxVal minVal maxVal buf).drop coder.eachValSize.1) coder.eachValSize =
      maxVal := by
    rw [insertMinMaxVal, List.append_assoc, List.drop_left' minLength]
    exact maxHolds.stored _
  have behind : (coder.insertMinMaxVal minVal maxVal buf).drop (coder.eachValSize.1 * 2) = buf :=
    List.drop_left' (by rw [List.length_append, minLength, maxLength, Nat.mul_two])
  rw [decompress, if_pos (by rw [isDelta]; decide)]
  simp only [minRead, maxRead, behind, libBack, isRun, Option.bind_eq_bind, Option.bind_some, runBack]

theorem decompress_unmarked {modes run : UInt16} {outSize : Nat} {buf middle result : List UInt8}
    (isDelta : modes &&& cuDeltaCompressed = 0) (isRun : modes &&& cuRLECompressed = run)
    (libBack : unpackLib libs modes outSize buf = some middle)
    (runBack : (if run ≠ 0 then (RleCoder.v1 coder.eachValSize.1).innerDecompress middle
      else middle) = result) :
    coder.decompress libs ⟨buf, modes⟩ outSize = some result := by
  rw [decompress, if_neg (not_not.mpr isDelta)]
  simp only [libBack, isRun, Option.bind_eq_bind, Option.bind_some, runBack]

include nonempty fits bounds in
theorem decompress_leWords (roundTrip : libs.RoundTrip) {input : CompressionArg1} {outSize : Nat}
    (buf : input.buf = leWords coder.eachValSize.1 values) (enough : input.buf.length ≤ outSize)
    (small : outSize < 2 ^ 31)
    (chosen : coder.minMaxVal.getD (computeIntMinMaxVal input.buf coder.eachValSize) = (minVal, maxVal)) :
    coder.decompress libs (coder.compressInner libs input) outSize = some input.buf := by
  have done := deltaStep_done nonempty fits bounds
  obtain ⟨words, holds⟩ := DeltaDone.words nonempty fits bounds done
  have room := done.length_le
  rw [compressInner, chosen]
  rw [buf] at enough ⊢
  dsimp only
  generalize coder.deltaStep minVal maxVal (leWords coder.eachValSize.1 values) = stage at *
  obtain ⟨run, runMode, runModes, shrunk, runBack⟩ := @rleStep_spec coder _ _ holds
  obtain ⟨lib, libMode, libModes, libBack⟩ := libStep_spec roundTrip input.compression
    input.compressLevel ((shrunk.trans room).trans enough) small
  rw [runModes] at libModes
  generalize libStep libs input.compression input.compressLevel (coder.rleStep stage) = final at *
  obtain ⟨isDelta, isRun, isLz, isZlib⟩ := mode_bits done.modes_eq runMode libMode
  rw [← libModes] at isDelta isRun isLz isZlib
  have unpacked (buf : List UInt8) (outSize : Nat) :
      unpackLib libs final.modes outSize buf = unpackLib libs lib outSize buf := by
    simp only [unpackLib, isLz, isZlib]
  rw [← unpacked] at libBack
  cases done with
  | distances smaller =>
    change final.modes &&& cuDeltaCompressed = cuDeltaCompressed at isDelta
    rw [if_pos (by rw [isDelta]; decide),
      decompress_marked bounds.minHolds bounds.maxHolds isDelta isRun libBack runBack]
    exact congrArg some (DeltaCoder.decompress_leWords nonempty fits (within bounds)
      (bounds.spread.trans_le (width_le coder.eachValSize.1)))
  | values =>
    change final.modes &&& cuDeltaCompressed = 0 at isDelta
    rw [if_neg (not_not.mpr isDelta)]
    exact decompress_unmarked isDelta isRun libBack runBack

/-- The bounds the coder works with: those it is given, or else those it computes. -/
theorem bounds_chosen (nonempty : values ≠ []) (fits : ∀ value ∈ values, value < 256 ^ coder.eachValSize.1.1)
    (supplied : ∀ minMaxVal, coder.minMaxVal = some minMaxVal →
      Bounds coder.eachValSize minMaxVal (values.map (signedWord coder.eachValSize.1))) :
    Bounds coder.eachValSize (coder.minMaxVal.getD
        (computeIntMinMaxVal (leWords coder.eachValSize.1 values) coder.eachValSize))
      (values.map (signedWord coder.eachValSize.1)) := by
  cases given : coder.minMaxVal with
  | some minMaxVal => exact supplied minMaxVal given
  | none =>
    have count : (leWords coder.eachValSize.1 values).length / coder.eachValSize.1.1 =
        values.length := by
      rw [length_leWords, Nat.mul_div_cancel _ coder.eachValSize.1.2.1]
    rw [Option.getD_none, computeIntMinMaxVal, count, intVals_leWords fits]
    apply bounds_computeMinMaxVal (by simpa using nonempty)
    intro val member
    obtain ⟨value, held, rfl⟩ := List.mem_map.mp member
    have read := convertToInt64Data_leBytes (fits value held) []
    exact ⟨_, read⟩

theorem decompress_words (roundTrip : libs.RoundTrip) {input : CompressionArg1} {outSize : Nat}
    (nonempty : values ≠ []) (fits : ∀ value ∈ values, value < 256 ^ coder.eachValSize.1.1)
    (buf : input.buf = leWords coder.eachValSize.1 values) (enough : input.buf.length ≤ outSize)
    (small : outSize < 2 ^ 31)
    (supplied : ∀ minMaxVal, coder.minMaxVal = some minMaxVal →
      Bounds coder.eachValSize minMaxVal (values.map (signedWord coder.eachValSize.1))) :
    coder.decompress libs (coder.compressInner libs input) outSize = some input.buf :=
  decompress_leWords nonempty fits (bounds_chosen nonempty fits supplied) roundTrip buf enough small
    (by rw [buf]; rfl)

def vals (coder : IntegerCoder) (input : CompressionArg1) : List Int :=
  intVals coder.eachValSize (input.buf.length / coder.eachValSize.1) input.buf

theorem decompress_whole (roundTrip : libs.RoundTrip) {input : CompressionArg1}
    (nonempty : input.buf ≠ []) (whole : coder.eachValSize.1.1 ∣ input.buf.length)
    (supplied : ∀ minMaxVal, coder.minMaxVal = some minMaxVal →
      Bounds coder.eachValSize minMaxVal (coder.vals input)) :
    coder.decompress libs (coder.compressInner libs input) input.buf.length = some input.buf := by
  obtain ⟨count, length⟩ := whole
  obtain ⟨values, sized, fits, written⟩ := exists_leWords (length.trans (Nat.mul_comm _ _))
  have occupied : values ≠ [] := by
    rintro rfl
    exact nonempty written.symm
  have same : coder.vals input = values.map (signedWord coder.eachValSize.1) := by
    rw [vals, length, Nat.mul_div_cancel_left _ coder.eachValSize.1.2.1, ← sized, ← written]
    exact intVals_leWords fits
  rw [same] at supplied
  exact decompress_words roundTrip occupied fits written.symm le_rfl input.small supplied

/-- Decompression gives back the array, whichever stages the compression kept. Bounds that are
handed in are integers of the type, as `FormCU` reads them from the CU description. -/
theorem decompress_compressInner (coder : IntegerCoder) (libs : CompressLibs)
    (roundTrip : libs.RoundTrip) (input : CompressionArg1) (nonempty : input.buf ≠ [])
    (whole : coder.eachValSize.1.1 ∣ input.buf.length)
    (supplied : ∀ cuMin cuMax, coder.minMaxVal = some (cuMin, cuMax) →
      coder.eachValSize.Holds cuMin ∧ coder.eachValSize.Holds cuMax ∧
        ∀ val ∈ coder.vals input, cuMin ≤ val ∧ val ≤ cuMax) :
    coder.decompress libs (coder.compressInner libs input) input.buf.length = some input.buf := by
  apply decompress_whole roundTrip nonempty whole
  rintro ⟨cuMin, cuMax⟩ given
  obtain ⟨low, high, inside⟩ := supplied cuMin cuMax given
  exact ⟨low, high, inside⟩

/-- Libraries of which zlib compresses one repeated byte, and LZ4 nothing. -/
def sampleLibs : CompressLibs where
  lz4CompressDefault _ := []
  lz4CompressHC _ _ := []
  lz4DecompressSafe _ _ := []
  deflate _ source :=
    if source.length < 256 ∧ source = List.replicate source.length (source.getD 0 0) then
      some [source.getD 0 0, UInt8.ofNat source.length]
    else none
  inflate packed _ := some (List.replicate (packed.getD 1 0).toNat (packed.getD 0 0))

theorem sampleLibs_roundTrip : sampleLibs.RoundTrip := by
  refine ⟨fun _ data => absurd rfl data, fun _ _ data => absurd rfl data, ?_⟩
  intro level source packed room deflated _
  obtain ⟨⟨short, same⟩, packs⟩ := Option.ite_none_right_eq_some.mp deflated
  cases packs
  have count : (UInt8.ofNat source.length).toNat = source.length :=
    (UInt8.toNat_ofNat (n := source.length)).trans (Nat.mod_eq_of_lt short)
  exact congrArg some ((congrArg (List.replicate · (source.getD 0 0)) count).trans same.symm)

def sampleInput : CompressionArg1 :=
  ⟨[44, 1, 45, 1, 44, 1, 44, 1, 44, 1, 46, 1], .low, ⟨0, level_pos⟩, by decide⟩

/-- Six equal values, whose distances zlib packs. -/
def equalInput : CompressionArg1 :=
  ⟨[45, 1, 45, 1, 45, 1, 45, 1, 45, 1, 45, 1], .high, ⟨0, level_pos⟩, by decide⟩

theorem decompress_compressInner_sample :
    (IntegerCoder.mk ⟨⟨2, by decide⟩, by decide⟩ true (some (300, 302))).decompress sampleLibs
        ((IntegerCoder.mk ⟨⟨2, by decide⟩, by decide⟩ true (some (300, 302))).compressInner sampleLibs
          sampleInput) 12 = some sampleInput.buf ∧
      (IntegerCoder.mk ⟨⟨2, by decide⟩, by decide⟩ false (some (300, 302))).decompress sampleLibs
        ((IntegerCoder.mk ⟨⟨2, by decide⟩, by decide⟩ false (some (300, 302))).compressInner sampleLibs
          equalInput) 12 = some equalInput.buf ∧
      ((IntegerCoder.mk ⟨⟨2, by decide⟩, by decide⟩ false (some (300, 302))).compressInner sampleLibs
          equalInput).modes &&& cuZlibCompressed ≠ 0 := by
  refine ⟨?_, ?_, by decide +kernel⟩
  · apply decompress_compressInner _ sampleLibs sampleLibs_roundTrip sampleInput (by decide) ⟨6, rfl⟩
    rintro cuMin cuMax given
    obtain ⟨rfl, rfl⟩ := Prod.mk.inj (Option.some.inj given)
    exact ⟨⟨[44, 1], by decide⟩, ⟨[46, 1], by decide⟩, by decide⟩
  · apply decompress_compressInner _ sampleLibs sampleLibs_roundTrip equalInput (by decide) ⟨6, rfl⟩
    rintro cuMin cuMax given
    obtain ⟨rfl, rfl⟩ := Prod.mk.inj (Option.some.inj given)
    exact ⟨⟨[44, 1], by decide⟩, ⟨[46, 1], by decide⟩, by decide⟩

end IntegerCoder

end OpenGauss.CStore
