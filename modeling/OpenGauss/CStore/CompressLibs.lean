import OpenGauss.Lib.LittleEndian

/-! LZ4 and zlib as the column store calls them, `compress_kits.cpp`. -/

namespace OpenGauss.CStore

open Lib

/-- The calls into the libraries. LZ4 answers with no bytes when it fails; `deflate` and `inflate`
stand for the one call that ends the stream, with `none` where the stream does not end. -/
structure CompressLibs where
  lz4CompressDefault : List UInt8 → List UInt8
  lz4CompressHC : Nat → List UInt8 → List UInt8
  lz4DecompressSafe : List UInt8 → Nat → List UInt8
  deflate : Nat → List UInt8 → Option (List UInt8)
  inflate : List UInt8 → Nat → Option (List UInt8)

/-- Both libraries restore what they compressed, given room for it. -/
structure CompressLibs.RoundTrip (libs : CompressLibs) : Prop where
  lz4Default : ∀ source, libs.lz4CompressDefault source ≠ [] →
    libs.lz4DecompressSafe (libs.lz4CompressDefault source) source.length = source
  lz4HC : ∀ level source, libs.lz4CompressHC level source ≠ [] →
    libs.lz4DecompressSafe (libs.lz4CompressHC level source) source.length = source
  zlib : ∀ level source packed room, libs.deflate level source = some packed →
    source.length ≤ room → libs.inflate packed room = some source

/-- The values of the storage parameter that ask for compression. -/
inductive Compression where
  | low
  | middle
  | high
deriving DecidableEq, Repr

/-- `compresslevel_tables`; the second index runs up to `REL_MAX_COMPRESSLEVEL`. -/
def compresslevelTables : Compression → Fin 4 → Nat
  | .low => ![0, 1, 1 + 2, 1 + 2 * 2]
  | .middle => ![9 - 2, 9, 9 + 2, 9 + 2 * 2]
  | .high => ![6, 6 + 1, 6 + 1 * 2, 9]

theorem level_pos : 0 < 4 := by decide

def sizeOfLz4Header : Nat := 8

def lz4MinLevel : Nat := 0

section Wrappers

variable (libs : CompressLibs)

def lz4Data (level : Nat) (source : List UInt8) : List UInt8 :=
  if level = lz4MinLevel then libs.lz4CompressDefault source else libs.lz4CompressHC level source

/-- `Compress` of `LZ4Wrapper`, `none` where it returns 0; the header holds the raw length and the
compressed length. -/
def lz4Compress (level : Nat) (source : List UInt8) : Option (List UInt8) :=
  let data := lz4Data libs level source
  if 0 < data.length ∧ sizeOfLz4Header + data.length < source.length then
    some (leBytes 4 source.length ++ leBytes 4 data.length ++ data)
  else none

def lz4Decompress (source : List UInt8) : List UInt8 :=
  let rawLen := leNat (source.take 4)
  let compressLen := leNat ((source.drop 4).take 4)
  libs.lz4DecompressSafe ((source.drop sizeOfLz4Header).take compressLen) rawLen

variable {libs}

theorem lz4Decompress_lz4Compress (roundTrip : libs.RoundTrip) {level : Nat}
    {source packed : List UInt8} (small : source.length < 2 ^ 31)
    (compressed : lz4Compress libs level source = some packed) :
    lz4Decompress libs packed = source := by
  unfold lz4Compress at compressed
  dsimp only at compressed
  split at compressed
  · rename_i benefited
    obtain rfl := Option.some.inj compressed
    obtain ⟨packs, smaller⟩ := benefited
    have raw : leNat (leBytes 4 source.length) = source.length :=
      leNat_leBytes (by norm_num; omega)
    have packed : leNat (leBytes 4 (lz4Data libs level source).length) =
        (lz4Data libs level source).length := leNat_leBytes (by norm_num; omega)
    have restored : libs.lz4DecompressSafe (lz4Data libs level source) source.length = source := by
      have data := List.length_pos_iff.mp packs
      unfold lz4Data at data ⊢
      split
      · rename_i fastest
        rw [if_pos fastest] at data
        exact roundTrip.lz4Default source data
      · rename_i slower
        rw [if_neg slower] at data
        exact roundTrip.lz4HC level source data
    have header : (leBytes 4 source.length ++ leBytes 4 (lz4Data libs level source).length ++
        lz4Data libs level source).drop sizeOfLz4Header = lz4Data libs level source :=
      List.drop_left' (by simp [sizeOfLz4Header])
    rw [lz4Decompress, header]
    simp only [List.append_assoc, List.take_left', List.drop_left', length_leBytes, raw, packed,
      List.take_length]
    exact restored
  · cases compressed

end Wrappers

end OpenGauss.CStore
