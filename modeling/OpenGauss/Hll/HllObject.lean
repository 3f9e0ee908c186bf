import OpenGauss.Hll.SparseBytes
import OpenGauss.Lib.LittleEndian
import OpenGauss.Lib.MaxSketch

/-! The objects of `hll.cpp`. The cached estimate is left out; no function here reads it. -/

namespace OpenGauss.Hll

open Lib

structure HllPara where
  log2Registers : Nat
  log2Explicitsize : Nat
  log2Sparsesize : Nat
  duplicateCheck : Nat
deriving DecidableEq, Repr

structure HllPara.Admitted (para : HllPara) : Prop where
  registers : 10 ≤ para.log2Registers ∧ para.log2Registers ≤ 16
  explicitsize : para.log2Explicitsize ≤ 12
  sparsesize : para.log2Sparsesize ≤ 14
  duplicateCheck : para.duplicateCheck ≤ 1

inductive HllType where
  | uninit
  | empty
  | explicit
  | sparse
  | full
deriving DecidableEq, Repr

/-- `hllData` holds the bytes in use, `lenUsed` of them. -/
structure HllObject where
  hlltype : HllType
  hllpara : HllPara
  lenTotal : Nat
  hllData : List UInt8
  lastHash : UInt64
deriving DecidableEq, Repr

def hllExpandSize : Nat := 256

def hllExplicitUint : Nat := 8

def hllInit (hllpara : HllPara) : HllObject := ⟨.uninit, hllpara, 0, [], 0⟩

def hllEmpty (hll : HllObject) : HllObject :=
  { hll with hlltype := .empty, lastHash := 0, hllData := [], lenTotal := 0 }

def trailingZeros : Nat → Nat → Nat
  | 0, _ => 0
  | bits + 1, number => if number % 2 = 1 then 0 else trailingZeros bits (number / 2) + 1

/-- The value of the builtin is undefined for 0, for which it is taken to be `ctzZero`. -/
def builtinCtzll (ctzZero : Nat) (number : UInt64) : Nat :=
  if number = 0 then ctzZero else trailingZeros 64 number.toNat

def hllHashToValue (ctzZero : Nat) (hllpara : HllPara) (hashval : UInt64) : Nat × Nat :=
  let calzeroLen := 64 - hllpara.log2Registers
  let index := hashval.toNat >>> calzeroLen
  let value := (builtinCtzll ctzZero hashval + 1) % 256
  (index, if calzeroLen < value then 0 else value)

def hllGetExplictitValue (hllData : List UInt8) (index : Nat) : UInt64 :=
  UInt64.ofNat (leNat ((hllData.drop (hllExplicitUint * index)).take hllExplicitUint))

def explicitValues (hllData : List UInt8) : List UInt64 :=
  (List.range (hllData.length / hllExplicitUint)).map (hllGetExplictitValue hllData)

def explicitBytes (hashes : List UInt64) : List UInt8 :=
  hashes.flatMap fun hashval => leBytes hllExplicitUint hashval.toNat

section Modes

variable (ctzZero : Nat)

/-- Each hash overwrites the register. -/
def fullOfExplicit (hllpara : HllPara) (hashes : List UInt64) (newdata : List UInt8) : List UInt8 :=
  hashes.foldl (fun newdata hashval =>
    let slot := hllHashToValue ctzZero hllpara hashval
    newdata.set slot.1 (UInt8.ofNat slot.2)) newdata

/-- The loop over sparse bytes; `none` at a byte of the type that is not used. -/
def fullOfSparse : List UInt8 → Nat → List UInt8 → Option (List UInt8)
  | [], _, newdata => some newdata
  | byteValue :: rest, index, newdata =>
    match byteType byteValue with
    | .sparseLongzero =>
      fullOfSparse rest (index + byteGetValue byteValue * hllLongzeroUnit) newdata
    | .sparseZero => fullOfSparse rest (index + byteGetValue byteValue) newdata
    | .denseValue => fullOfSparse rest (index + 1)
        (newdata.set index (UInt8.ofNat (byteGetValue byteValue)))
    | .sparseValue => none

variable (hll : HllObject)

def intoFull (newdata : List UInt8) : HllObject :=
  { hll with
    hllData := newdata
    hlltype := .full
    lenTotal := 2 ^ hll.hllpara.log2Registers }

/-- `none` where an error is reported, here and below. -/
def hllTransformFull : Option HllObject :=
  let newdata := List.replicate (2 ^ hll.hllpara.log2Registers) (0 : UInt8)
  match hll.hlltype with
  | .empty => some (intoFull hll newdata)
  | .explicit => some (intoFull hll
      (fullOfExplicit ctzZero hll.hllpara (explicitValues hll.hllData) newdata))
  | .sparse => (fullOfSparse hll.hllData 0 newdata).map (intoFull hll)
  | .full => some hll
  | .uninit => none

variable (hashval : UInt64)

def hllSetFullValue : Option HllObject :=
  let (index, value) := hllHashToValue ctzZero hll.hllpara hashval
  if value = 0 then some hll
  else if hll.hllData.length ≤ index then none
  else if (hll.hllData.getD index 0).toNat < value then
    some { hll with hllData := hll.hllData.set index (UInt8.ofNat value) }
  else some hll

/-- The bytes for no registers set: full long runs, or one shorter one. -/
def hllEmptyToSparse : HllObject :=
  let nbyte := if 12 < hll.hllpara.log2Registers then 2 ^ (hll.hllpara.log2Registers - 12) else 1
  let newdata := if 1 < nbyte then List.replicate nbyte hllLongzeroFull
    else [setLongzeroValue (2 ^ hll.hllpara.log2Registers)]
  { hll with hllData := newdata, lenTotal := newdata.length, hlltype := .sparse }

/-- The data, the last register that was set, and the size of the memory. -/
structure SparseLoop where
  newdata : List UInt8
  lastindex : Int
  sparsesize : Nat

def sparseMinsize (hllpara : HllPara) : Nat :=
  (if 12 < hllpara.log2Registers then 2 ^ (hllpara.log2Registers - 12) else 1) + 2

/-- One hash, in ascending order; equal registers take the greater value. -/
def sparseOfExplicit (hllpara : HllPara) (loop : SparseLoop) (hashval : UInt64) : SparseLoop :=
  let (index, value) := hllHashToValue ctzZero hllpara hashval
  if value = 0 then loop
  else
    let newvalue := setDenseValue value
    if (index : Int) = loop.lastindex then
      if loop.newdata.getLastD 0 < newvalue then
        { loop with newdata := loop.newdata.dropLast ++ [newvalue] }
      else loop
    else
      let zerocount := (index - loop.lastindex - 1).toNat
      let newdata := loop.newdata ++ hllSetSparseZero zerocount ++ [newvalue]
      let sparsesize := if loop.sparsesize < newdata.length + sparseMinsize hllpara then
        loop.sparsesize + hllExpandSize else loop.sparsesize
      ⟨newdata, index, sparsesize⟩

def hllExplicitToSparse : HllObject :=
  let loop := (explicitValues hll.hllData).foldl (sparseOfExplicit ctzZero hll.hllpara)
    ⟨[], -1, sparseMinsize hll.hllpara⟩
  let zerocount := (2 ^ hll.hllpara.log2Registers - loop.lastindex - 1).toNat
  { hll with
    hllData := loop.newdata ++ hllSetSparseZero zerocount
    lenTotal := loop.sparsesize
    hlltype := .sparse }

def hllTransformSparse : Option HllObject :=
  match hll.hlltype with
  | .empty => some (hllEmptyToSparse hll)
  | .explicit => some (hllExplicitToSparse ctzZero hll)
  | .sparse => some hll
  | _ => none

/-- The loop of `HllUpdateValue`, which expands the memory until there is room for `more` bytes. -/
def expandedFor (lenTotal lenUsed more : Nat) : Nat :=
  lenTotal + (more - (lenTotal - lenUsed) + (hllExpandSize - 1)) / hllExpandSize * hllExpandSize

def hllSetSparseValue : Option HllObject := do
  let (index, value) := hllHashToValue ctzZero hll.hllpara hashval
  if value = 0 then some hll
  else
    let (byteIndex, unitIndex) ← hllGetRegisterUnit hll.hllData index
    let hllData ← hllUpdateSparseValue hll.hllData byteIndex unitIndex value
    let lenTotal := expandedFor hll.lenTotal hll.hllData.length
      (hllData.length - hll.hllData.length)
    let updated := { hll with hllData := hllData, lenTotal := lenTotal }
    if 2 ^ hll.hllpara.log2Sparsesize < hllData.length then hllTransformFull ctzZero updated
    else some updated

def hllExplicitCheck : Option HllObject :=
  if 2 ^ hll.hllpara.log2Explicitsize < hll.hllData.length then
    if hll.hllpara.log2Explicitsize < hll.hllpara.log2Sparsesize then do
      let sparse ← hllTransformSparse ctzZero hll
      if 2 ^ hll.hllpara.log2Sparsesize < sparse.hllData.length then
        hllTransformFull ctzZero sparse
      else some sparse
    else hllTransformFull ctzZero hll
  else some hll

/-- The binary search; the range gets smaller with each round. -/
def upperBound (hllData : List UInt8) (hashval : UInt64) : Nat → Nat → Nat → Nat
  | 0, start, _ => start
  | rounds + 1, start, last =>
    if start < last then
      let mid := (start + last) / 2
      if hllGetExplictitValue hllData mid ≤ hashval then
        upperBound hllData hashval rounds (mid + 1) last
      else upperBound hllData hashval rounds start mid
    else start

/-- `HllSetExplicitValue` up to the check of the mode, and whether the hash was new. -/
def hllInsertExplicit : HllObject × Bool :=
  let lenTotal := if hll.lenTotal - hll.hllData.length < hllExplicitUint then
    hll.lenTotal + hllExpandSize else hll.lenTotal
  let explicitLen := hll.hllData.length / hllExplicitUint
  let bindex := upperBound hll.hllData hashval explicitLen 0 explicitLen
  if 0 < bindex ∧ hllGetExplictitValue hll.hllData (bindex - 1) = hashval then
    ({ hll with lenTotal := lenTotal }, false)
  else
    ({ hll with
      lenTotal := lenTotal
      hllData := hllUpdateValue hll.hllData (hllExplicitUint * bindex)
        (leBytes hllExplicitUint hashval.toNat) 0 }, true)

def hllSetExplicitValue : Option HllObject :=
  let (inserted, fresh) := hllInsertExplicit hll hashval
  if fresh then hllExplicitCheck ctzZero inserted else some inserted

def hllSetEmptyValue : Option HllObject :=
  if hll.hllpara.log2Explicitsize = 0 ∧ hll.hllpara.log2Sparsesize = 0 then do
    let full ← hllTransformFull ctzZero hll
    hllSetFullValue ctzZero full hashval
  else if hll.hllpara.log2Explicitsize = 0 then do
    let sparse ← hllTransformSparse ctzZero hll
    hllSetSparseValue ctzZero sparse hashval
  else hllSetExplicitValue ctzZero { hll with hlltype := .explicit } hashval

def hllSetRegisterValue : Option HllObject :=
  match hll.hlltype with
  | .uninit => hllSetEmptyValue ctzZero (hllEmpty hll) hashval
  | .empty => hllSetEmptyValue ctzZero hll hashval
  | .explicit => hllSetExplicitValue ctzZero hll hashval
  | .sparse => hllSetSparseValue ctzZero hll hashval
  | .full => hllSetFullValue ctzZero hll hashval

def hllAdd : Option HllObject :=
  if hll.hllpara.duplicateCheck ≠ 0 ∧ hashval = hll.lastHash then some hll
  else (hllSetRegisterValue ctzZero hll hashval).map fun added => { added with lastHash := hashval }

/-- The copied object keeps its memory where that is large enough. -/
def hllCopy (hll aHll : HllObject) : HllObject :=
  { aHll with lenTotal := max hll.lenTotal aHll.lenTotal }

/-- Two ordered arrays; equal hashes are taken once. -/
def mergeHashes : List UInt64 → List UInt64 → List UInt64
  | [], others => others
  | hashes, [] => hashes
  | hashval1 :: hashes, hashval2 :: others =>
    if hashval1 < hashval2 then hashval1 :: mergeHashes hashes (hashval2 :: others)
    else if hashval2 < hashval1 then hashval2 :: mergeHashes (hashval1 :: hashes) others
    else hashval1 :: mergeHashes hashes others
termination_by hashes others => hashes.length + others.length

def hllMergeExplicit (hll aHll : HllObject) : HllObject :=
  { hll with
    hllData := explicitBytes (mergeHashes (explicitValues hll.hllData) (explicitValues aHll.hllData))
    lenTotal := hll.hllData.length + aHll.hllData.length
    lastHash := 0 }

def hllComibineExplicit (hll aHll : HllObject) : Option HllObject :=
  hllExplicitCheck ctzZero (hllMergeExplicit hll aHll)

def hllCombineFull (hll aHll : HllObject) : HllObject :=
  { hll with
    hllData := List.zipWith (fun own other => if own < other then other else own)
      hll.hllData aHll.hllData
    lastHash := 0 }

def isBlank : Bool := hll.hlltype = .uninit || hll.hlltype = .empty

/-- Both objects after the union: the other one is turned to full mode in place. -/
def hllUnion (hll aHll : HllObject) : Option (HllObject × HllObject) :=
  if isBlank aHll then some (hll, aHll)
  else if isBlank hll then some (hllCopy hll aHll, aHll)
  else if hll.hllpara ≠ aHll.hllpara then none
  else if aHll.hlltype = .explicit ∧ hll.hlltype = .explicit then
    (hllComibineExplicit ctzZero hll aHll).map fun united => (united, aHll)
  else do
    let full ← hllTransformFull ctzZero hll
    let aFull ← hllTransformFull ctzZero aHll
    some (hllCombineFull full aFull, aFull)

end Modes

def hllHeadSize : Nat := 27

def hllParaBit : Nat := 4

def hllLenBit : Nat := 17

def HllType.code : HllType → Nat
  | .uninit => 0
  | .empty => 1
  | .explicit => 2
  | .sparse => 3
  | .full => 4

def HllType.ofCode : Nat → Option HllType
  | 0 => some .uninit
  | 1 => some .empty
  | 2 => some .explicit
  | 3 => some .sparse
  | 4 => some .full
  | _ => none

def hllHead : List UInt8 := [72, 76, 76]

def compressInfo (hll : HllObject) : Nat :=
  let para := hll.hllpara
  let info := hll.hlltype.code <<< hllParaBit ||| (para.log2Registers - 10)
  let info := info <<< hllParaBit ||| para.log2Explicitsize
  let info := info <<< hllParaBit ||| para.log2Sparsesize
  let info := info <<< hllParaBit ||| para.duplicateCheck
  let info := info <<< hllLenBit ||| hll.lenTotal
  info <<< hllLenBit ||| hll.hllData.length

/-- The packed object with a byte behind it, as its callers size the buffer; the eight bytes of the
cached estimate are `ndvEstimator`. -/
def hllObjectPack (ndvEstimator : UInt64) (hll : HllObject) : Option (List UInt8) :=
  if hll.hlltype = .uninit then none
  else some (hllHead ++ leBytes 8 (compressInfo hll) ++ leBytes 8 ndvEstimator.toNat ++
    leBytes 8 hll.lastHash.toNat ++ hll.hllData ++ [0])

def hllObjectUnpack (hllbyte : List UInt8) : Option HllObject :=
  if hllbyte.length < hllHeadSize then none
  else if hllbyte.take 3 ≠ hllHead then none
  else
    let info := leNat ((hllbyte.drop 3).take 8)
    let lenUsed := info &&& (2 ^ hllLenBit - 1)
    let info := info >>> hllLenBit
    let lenTotal := info &&& (2 ^ hllLenBit - 1)
    let info := info >>> hllLenBit
    let duplicateCheck := info &&& (2 ^ hllParaBit - 1)
    let info := info >>> hllParaBit
    let log2Sparsesize := info &&& (2 ^ hllParaBit - 1)
    let info := info >>> hllParaBit
    let log2Explicitsize := info &&& (2 ^ hllParaBit - 1)
    let info := info >>> hllParaBit
    let log2Registers := (info &&& (2 ^ hllParaBit - 1)) + 10
    let info := info >>> hllParaBit
    match HllType.ofCode (info &&& (2 ^ hllParaBit - 1)) with
    | none => none
    | some hlltype =>
      if hllbyte.length ≤ hllHeadSize + lenUsed then none
      else some
        { hlltype := hlltype
          hllpara := ⟨log2Registers, log2Explicitsize, log2Sparsesize, duplicateCheck⟩
          lenTotal := lenTotal
          hllData := (hllbyte.drop hllHeadSize).take lenUsed
          lastHash := UInt64.ofNat (leNat ((hllbyte.drop 19).take 8)) }

end OpenGauss.Hll
