import OpenGauss.Lib.BitWords
import OpenGauss.Lib.LittleEndian

/-! The Bloom filters of `bloom_filter.cpp`. The results of the two floating-point formulas for the
sizes are parameters, and the generated variants of `addLong` and `includeLong` are left out. -/

namespace OpenGauss.Bloom

open Lib

def maxHashFunctions : Nat := 4

def startupEntriesMin : Nat := 500

def maxEntries : Nat := 10000000

/-- What the specialisations of the class differ in: `(baseType)0`, the hash, `compareValue`, the
equality for a single value, and the way of a bound through `valueToDatum` and `datumToValue`. -/
structure ValueType (Value : Type) where
  zero : Value
  hash64 : Value → BitVec 64
  compareValue : Value → Value → Int
  sameValue : Value → Value → Bool
  throughDatum : Value → Value

structure BloomFilterImpl (Value : Type) where
  data : List (BitVec 64)
  numBits : Nat
  numHashFunctions : Nat
  numValues : Nat
  maxNumValues : Nat
  startupEntries : Nat
  /-- `position[j]` of entry `i` at `4 * i + j`; one past the four of an entry falls in the next. -/
  valuePositions : Nat → Nat
  minValue : Value
  maxValue : Value
  addMinMax : Bool
  hasMM : Bool

/-- Thomas Wang's integer hash function; the key is signed. -/
def getLongHash (key : BitVec 64) : BitVec 64 :=
  let key := ~~~key + key <<< 21
  let key := key ^^^ key.sshiftRight 24
  let key := key + key <<< 3 + key <<< 8
  let key := key ^^^ key.sshiftRight 14
  let key := key + key <<< 2 + key <<< 4
  let key := key ^^^ key.sshiftRight 28
  key + key <<< 31

namespace Murmur3

def c1 : BitVec 64 := 0x87c37b91114253d5

def c2 : BitVec 64 := 0x4cf5ad432745937f

def fmix64 (h : BitVec 64) : BitVec 64 :=
  let h := h ^^^ h >>> 33
  let h := h * 0xff51afd7ed558ccd
  let h := h ^^^ h >>> 33
  let h := h * 0xc4ceb9fe1a85ec53
  h ^^^ h >>> 33

def mixed (k : BitVec 64) : BitVec 64 := (k * c1).rotateLeft 31 * c2

def hash64 (data : List UInt8) : BitVec 64 :=
  let nblocks := data.length >>> 3
  let hash := (List.range nblocks).foldl (fun hash i =>
    let k := BitVec.ofNat 64 (leNat ((data.drop (8 * i)).take 8))
    (hash ^^^ mixed k).rotateLeft 27 * 5 + 0x52dce729) (104729 : BitVec 64)
  let tail := data.drop (8 * nblocks)
  let hash := if tail = [] then hash else hash ^^^ mixed (BitVec.ofNat 64 (leNat tail))
  fmix64 (hash ^^^ BitVec.ofNat 64 data.length)

end Murmur3

def longType : ValueType (BitVec 64) where
  zero := 0
  hash64 := getLongHash
  compareValue left right := if right.slt left then 1 else if left.slt right then -1 else 0
  sameValue left right := left == right
  throughDatum value := value

/-- What a `double` with these bits compares as; `none` is a NaN. -/
def float8Key (bits : BitVec 64) : Option Int :=
  let magnitude := (bits.setWidth 63).toNat
  if 0x7ff0000000000000 < magnitude then none
  else if bits.msb then some (-magnitude) else some magnitude

/-- `BloomFilterImpl<float8>`: a NaN is neither greater nor less than a number, nor equal to itself. -/
def float8Type (throughDatum : BitVec 64 → BitVec 64) : ValueType (BitVec 64) where
  zero := 0
  hash64 := getLongHash
  compareValue left right := ((float8Key left).bind fun low => (float8Key right).map fun high =>
    if high < low then 1 else if low < high then -1 else 0).getD 0
  sameValue left right := (float8Key left).isSome && float8Key left == float8Key right
  throughDatum := throughDatum

/-- `BloomFilterImpl<char *>`, with the comparison of the collation and the conversion of the type. -/
def stringType (varstrCmp : List UInt8 → List UInt8 → Int)
    (throughDatum : List UInt8 → List UInt8) : ValueType (List UInt8) where
  zero := []
  hash64 := Murmur3.hash64
  compareValue := varstrCmp
  sameValue left right := left.length == right.length && left == right
  throughDatum := throughDatum

/-- The bits as a multiple of 64, more than the formula gives. -/
def sizeInBits (nb : Nat) : Nat := nb + (64 - nb % 64)

/-- `nb` comes from `optimalNumOfBits` and `rounded` from `optimalNumOfHashFunctions`. -/
def BloomFilterImpl.create {Value : Type} (valueType : ValueType Value) (expectedEntries nb : Nat)
    (rounded : Nat) (addMinMax : Bool) : Option (BloomFilterImpl Value) :=
  if expectedEntries = 0 ∨ maxEntries ≤ expectedEntries then none
  else some
    { data := List.replicate (sizeInBits nb / 64) 0#64
      numBits := sizeInBits nb
      numHashFunctions := max 1 rounded
      numValues := 0
      maxNumValues := expectedEntries
      startupEntries := min expectedEntries startupEntriesMin
      valuePositions := fun _ => 0
      minValue := valueType.zero
      maxValue := valueType.zero
      addMinMax := addMinMax
      hasMM := false }

section Filters

variable {Value : Type} (valueType : ValueType Value)

/-- Two hashes out of one; a negative combination is flipped. -/
def combinedHash (hash64 : BitVec 64) (i : Nat) : BitVec 32 :=
  let hash1 := hash64.setWidth 32
  let hash2 := (hash64 >>> 32).setWidth 32
  let combined := hash1 + BitVec.ofNat 32 i * hash2
  if combined.slt 0 then ~~~combined else combined

def bitPosition (numBits : Nat) (hash64 : BitVec 64) (i : Nat) : Nat :=
  (combinedHash hash64 i).toNat % numBits

variable (filter : BloomFilterImpl Value)

def setMinMax (val : Value) : BloomFilterImpl Value :=
  if filter.hasMM = false then { filter with minValue := val, maxValue := val, hasMM := true }
  else if valueType.compareValue val filter.minValue < 0 then { filter with minValue := val }
  else if 0 < valueType.compareValue val filter.maxValue then { filter with maxValue := val }
  else filter

def addPosition (hash64 : BitVec 64) (filter : BloomFilterImpl Value) (j : Nat) : BloomFilterImpl Value :=
  let pos := bitPosition filter.numBits hash64 (j + 1)
  { filter with
    data := setBit filter.data pos
    valuePositions := Function.update filter.valuePositions
      (maxHashFunctions * filter.numValues + j) (pos % 2 ^ 16) }

/-- `none` where an error is reported, here and below. -/
def addHash (hash64 : BitVec 64) : Option (BloomFilterImpl Value) :=
  if filter.maxNumValues ≤ filter.numValues then none
  else
    let startupEntries := if filter.startupEntries ≤ filter.numValues then
      min (filter.startupEntries * 2) filter.maxNumValues else filter.startupEntries
    let added := (List.range filter.numHashFunctions).foldl (addPosition hash64)
      { filter with startupEntries := startupEntries }
    some { added with numValues := added.numValues + 1 }

def addValue (val : Value) : Option (BloomFilterImpl Value) :=
  addHash (if filter.addMinMax then setMinMax valueType filter val else filter)
    (valueType.hash64 val)

def includeHashInternal (hash64 : BitVec 64) : Bool :=
  (List.range filter.numHashFunctions).all fun j =>
    getBit filter.data (bitPosition filter.numBits hash64 (j + 1))

def includeValue (value : Value) : Bool :=
  if filter.addMinMax ∧ filter.numValues = 1 then valueType.sameValue value filter.minValue
  else includeHashInternal filter (valueType.hash64 value)

def minMaxCheck (filter that : BloomFilterImpl Value) : Bool :=
  if filter.hasMM = false ∨ that.hasMM = false then true
  else
    let minV := valueType.throughDatum that.minValue
    let maxV := valueType.throughDatum that.maxValue
    if filter.numValues = 1 then
      0 ≤ valueType.compareValue filter.minValue minV ∧ valueType.compareValue filter.maxValue maxV ≤ 0
    else
      ¬ (0 < valueType.compareValue filter.minValue minV ∨ valueType.compareValue filter.maxValue maxV < 0)

def singleIncludedIn (that : List (BitVec 64)) : Bool :=
  wordsWithin filter.data that

def multiIncludedIn (that : List (BitVec 64)) : Bool :=
  (List.range filter.numValues).any fun i =>
    (List.range filter.numHashFunctions).all fun j =>
      getBit that (filter.valuePositions (maxHashFunctions * i + j))

def includedInBits (that : List (BitVec 64)) : Bool :=
  if filter.numValues = 0 then false
  else if filter.numValues = 1 then singleIncludedIn filter that
  else multiIncludedIn filter that

/-- Filters of other sizes are not compared. -/
def includedIn (filter that : BloomFilterImpl Value) : Bool :=
  if filter.numBits = that.numBits ∧ filter.numHashFunctions = that.numHashFunctions then
    if minMaxCheck valueType filter that = false then false else includedInBits filter that.data
  else true

def unionAll (filter that : BloomFilterImpl Value) : Option (BloomFilterImpl Value) :=
  if filter.numBits = that.numBits ∧ filter.numHashFunctions = that.numHashFunctions then
    some { filter with data := orWords filter.data that.data }
  else none

structure BloomFilterSet (Value : Type) where
  data : List (BitVec 64)
  numBits : Nat
  numHashFunctions : Nat
  numValues : Nat
  maxNumValues : Nat
  startupEntries : Nat
  valuePositions : List Nat
  minValue : Value
  maxValue : Value
  addMinMax : Bool
  hasMM : Bool

def makeBloomFilterSet : BloomFilterSet Value where
  data := filter.data
  numBits := filter.numBits
  numHashFunctions := filter.numHashFunctions
  numValues := filter.numValues
  maxNumValues := filter.maxNumValues
  startupEntries := filter.startupEntries
  valuePositions :=
    (List.range (maxHashFunctions * filter.startupEntries)).map filter.valuePositions
  minValue := filter.minValue
  maxValue := filter.maxValue
  addMinMax := filter.addMinMax
  hasMM := filter.hasMM

def rebuildBloomFilterValue (bloomFilterSet : BloomFilterSet Value) : BloomFilterImpl Value where
  data := bloomFilterSet.data
  numBits := bloomFilterSet.numBits
  numHashFunctions := bloomFilterSet.numHashFunctions
  numValues := bloomFilterSet.numValues
  maxNumValues := bloomFilterSet.maxNumValues
  startupEntries := bloomFilterSet.startupEntries
  valuePositions := fun place => bloomFilterSet.valuePositions.getD place 0
  minValue := bloomFilterSet.minValue
  maxValue := bloomFilterSet.maxValue
  addMinMax := bloomFilterSet.addMinMax
  hasMM := bloomFilterSet.hasMM

end Filters

end OpenGauss.Bloom
