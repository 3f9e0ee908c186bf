import OpenGauss.CStore.NumberCU
import OpenGauss.CStore.ScalarVector
import OpenGauss.UStore.UPage

/-! The tuples of ustore tables, `knl_utuple.cpp`. Columns passed by value are not aligned, the
others are aligned from the start of the tuple. -/

namespace OpenGauss.UStore

open CStore (varsizeAny strlen varattIs1B varattIs4BU varhdrsz varhdrszShort varattShortMax setVarsizeShort)

inductive AttAlign where
  | char | short | int | double
deriving DecidableEq, Repr

def AttAlign.width : AttAlign → Nat
  | .char => 1
  | .short => 2
  | .int => 4
  | .double => 8

inductive AttStorage where
  | plain | external | extended | main
deriving DecidableEq, Repr

def lenVarlena : Int := -1

def lenCstring : Int := -2

structure FormPgAttribute where
  attlen : Int
  attbyval : Bool
  attalign : AttAlign
  attstorage : AttStorage := .plain
  attisdropped : Bool := false
  length : attlen = lenVarlena ∨ attlen = lenCstring ∨ 0 < attlen
  byval : attbyval = true → 0 < attlen
  cstring : attlen = lenCstring → attalign = .char

/-- `initdefvals` has what an added column reads as in tuples that are older. -/
structure TupleDesc where
  natts : Nat
  attrs : Nat → FormPgAttribute
  initdefvals : Nat → Option (List UInt8) := fun _ => none

structure UHeapDiskTuple where
  natts : Nat
  hasNulls : Bool
  hasVarWidth : Bool
  tHoff : Nat
  data : List UInt8
deriving DecidableEq, Repr

def isnullAttrsPerByte : Nat := 8

def bitmapLen (natts : Nat) : Nat := (natts + 7) / 8

/-- Up to this many attributes there is room for a reserve bit of each null. -/
def nAttrsReserveSpace (nattrs : Nat) : Bool := nattrs ≤ (255 - sizeOfUHeapDiskTupleData) * 8 / 2

def attIsnull (att : Nat) (bits : List UInt8) : Bool :=
  !(bits.getD (att / isnullAttrsPerByte) 0).toNat.testBit (att % isnullAttrsPerByte)

def setBit (bits : List UInt8) (att : Nat) : List UInt8 :=
  bits.modify (att / isnullAttrsPerByte) (· ||| UInt8.ofNat (2 ^ (att % isnullAttrsPerByte)))

/-- What can be read from an offset of the tuple on. No column starts in the header. -/
def UHeapDiskTuple.tupPtr (tup : UHeapDiskTuple) (off : Int) : List UInt8 :=
  if off < sizeOfUHeapDiskTupleData then []
  else tup.data.drop (off - sizeOfUHeapDiskTupleData).toNat

def attAlignNominal (off : Int) (attalign : AttAlign) : Int :=
  (off + (attalign.width - 1)) / attalign.width * attalign.width

/-- A byte that is not zero begins a value, which then needs no alignment or has it. -/
def attAlignPointer (off : Int) (attalign : AttAlign) (attptr : List UInt8) : Int :=
  if attptr.getD 0 0 ≠ 0 then off else attAlignNominal off attalign

def attAddlengthPointer (off attlen : Int) (attptr : List UInt8) : Int :=
  if 0 < attlen then off + attlen
  else if attlen = lenVarlena then off + varsizeAny attptr
  else off + (strlen attptr + 1)

/-- A value passed by value, or a pointer: into the tuple, or to the value that an added column has. -/
inductive Datum where
  | value (bytes : List UInt8)
  | pointer (off : Int)
  | initDefVal (bytes : List UInt8)
deriving DecidableEq, Repr

def fetchatt (att : FormPgAttribute) (tup : UHeapDiskTuple) (off : Int) : Datum :=
  if att.attbyval then .value ((tup.tupPtr off).take att.attlen.toNat) else .pointer off

variable (desc : TupleDesc)

/-- `none` is a null. -/
def heapGetInitDefVal (attnum : Nat) : Option Datum :=
  (desc.initdefvals attnum).map fun bytes =>
    if (desc.attrs attnum).attbyval then .value (bytes.take (desc.attrs attnum).attlen.toNat)
    else .initDefVal bytes

/-- The variables of the loops over the attributes. A value is `none` where its null flag is set. -/
structure DeformState where
  off : Int
  nullcount : Nat := 0
  values : Nat → Option Datum

/-- The offset behind a null, which may have its space reserved. -/
def nullSkip (tup : UHeapDiskTuple) (att : FormPgAttribute) (nullcount : Nat) (off : Int) : Int :=
  if nAttrsReserveSpace tup.natts && !attIsnull (tup.natts + nullcount) tup.data then off + att.attlen
  else off

/-- Where the value of an attribute starts that is not null. -/
def attStart (tup : UHeapDiskTuple) (att : FormPgAttribute) (off : Int) : Int :=
  if att.attlen = lenVarlena then attAlignPointer off att.attalign (tup.tupPtr off)
  else if att.attbyval then off
  else attAlignNominal off att.attalign

def deformAttr (tup : UHeapDiskTuple) (state : DeformState) (attnum : Nat) : DeformState :=
  let thisatt := desc.attrs attnum
  if tup.hasNulls && attIsnull attnum tup.data then
    { off := nullSkip tup thisatt state.nullcount state.off
      nullcount := state.nullcount + 1
      values := Function.update state.values attnum none }
  else
    let off := attStart tup thisatt state.off
    { state with
      off := attAddlengthPointer off thisatt.attlen (tup.tupPtr off)
      values := Function.update state.values attnum (some (fetchatt thisatt tup off)) }

def deformLoop (tup : UHeapDiskTuple) (state : DeformState) (attnum natts : Nat) :
    DeformState :=
  (List.range' attnum (natts - attnum)).foldl (deformAttr desc tup) state

def initDefLoop (values : Nat → Option Datum) (attnum natts : Nat) : Nat → Option Datum :=
  fun att => if attnum ≤ att ∧ att < natts then heapGetInitDefVal desc att else values att

def uheapDeformTupleGuts (utuple : UHeapDiskTuple) (values : Nat → Option Datum)
    (unatts : Nat) : Nat → Option Datum :=
  let natts := min utuple.natts unatts
  let done := deformLoop desc utuple { off := utuple.tHoff, values } 0 natts
  initDefLoop desc done.values natts unatts

def uheapDeformTuple (utuple : UHeapDiskTuple) (values : Nat → Option Datum) :
    Nat → Option Datum :=
  uheapDeformTupleGuts desc utuple values desc.natts

def varattCanMakeShort (val : List UInt8) : Prop :=
  varattIs4BU val ∧ varsizeAny val - varhdrsz + varhdrszShort ≤ varattShortMax

instance (val : List UInt8) : Decidable (varattCanMakeShort val) := inferInstanceAs (Decidable (_ ∧ _))

def padding (off : Nat) (attalign : AttAlign) : List UInt8 :=
  List.replicate (attAlignNominal off attalign - off).toNat 0

/-- A varlena as it is stored at an offset: as it is if the header is of one byte, without alignment, else
with a header of one byte if it fits, else aligned. -/
def storeVarlena (att : FormPgAttribute) (off : Nat) (val : List UInt8) : List UInt8 :=
  if varattIs1B val then val.take (varsizeAny val)
  else if att.attstorage ≠ .plain ∧ varattCanMakeShort val then
    let attrLength := varsizeAny val - varhdrsz + varhdrszShort
    setVarsizeShort attrLength ++ (val.drop varhdrsz).take (attrLength - 1)
  else padding off att.attalign ++ val.take (varsizeAny val)

/-- A value as it is stored at an offset; `val` is what can be read from its pointer on. -/
def storeAtt (att : FormPgAttribute) (off : Nat) (val : List UInt8) : List UInt8 :=
  if att.attbyval then val.take att.attlen.toNat
  else if att.attlen = lenVarlena then storeVarlena att off val
  else if att.attlen = lenCstring then val.take (strlen val + 1)
  else padding off att.attalign ++ val.take att.attlen.toNat

/-- The null bitmap, the position of the next reserve bit, and the columns. -/
structure FillState where
  bitmap : List UInt8
  reserve : Nat
  columns : List UInt8 := []
  hasVarWidth : Bool := false

def reserved (enableReserve : Bool) (i : Nat) : Bool :=
  enableReserve && (desc.attrs i).attbyval && !(desc.attrs i).attisdropped

/-- One round of the loop of `UHeapFillDiskTuple`. The columns start at `begin`. -/
def fillAttr (values : Nat → List UInt8) (isnull : Nat → Bool) (hasnull : Bool)
    (begin : Nat) (enableReserve : Bool) (state : FillState) (i : Nat) : FillState :=
  let att := desc.attrs i
  if hasnull && isnull i then
    if reserved desc enableReserve i then
      { state with
        bitmap := setBit state.bitmap state.reserve
        reserve := state.reserve + 1
        columns := state.columns ++ List.replicate att.attlen.toNat 0 }
    else { state with reserve := state.reserve + 1 }
  else
    { state with
      bitmap := if hasnull then setBit state.bitmap i else state.bitmap
      columns := state.columns ++ storeAtt att (begin + state.columns.length) (values i)
      hasVarWidth := state.hasVarWidth || att.attlen == lenVarlena || att.attlen == lenCstring }

variable (isnull : Nat → Bool)

/-- The nulls of the attributes before the `count`-th. -/
def nullsBefore (count : Nat) : Nat := (List.range count).countP isnull

def maxTupleAttributeNumber : Nat := 1664

/-- `UHeapFormTuple`. `values` are the values after the first loop, which flattens those of composite types;
`none` is an error. The size calculated in advance is the one of the result. -/
def uheapFormTuple (reserveSpaceForNullableAtts : Bool) (values : Nat → List UInt8)
    (isNulls : Nat → Bool) : Option UHeapDiskTuple :=
  if maxTupleAttributeNumber < desc.natts then none
  else
    let enableReverseBitmap := nAttrsReserveSpace desc.natts
    let enableReserve := reserveSpaceForNullableAtts && enableReverseBitmap
    let nullcount := nullsBefore isNulls desc.natts
    let bitmapBytes :=
      if nullcount = 0 then 0
      else if enableReverseBitmap then bitmapLen (desc.natts + nullcount) else bitmapLen desc.natts
    let hoff := sizeOfUHeapDiskTupleData + bitmapBytes
    let filled := (List.range desc.natts).foldl
      (fillAttr desc values isNulls (0 < nullcount) hoff enableReserve)
      { bitmap := List.replicate bitmapBytes 0, reserve := desc.natts }
    some {
      natts := desc.natts
      hasNulls := 0 < nullcount
      hasVarWidth := filled.hasVarWidth
      tHoff := hoff % 256
      data := filled.bitmap ++ filled.columns }

@[simp] theorem length_setBit (bits : List UInt8) (att : Nat) : (setBit bits att).length = bits.length :=
  List.length_modify _ _ _

theorem attIsnull_setBit {bits : List UInt8} {att : Nat} (inside : att / isnullAttrsPerByte < bits.length)
    (other : Nat) : attIsnull other (setBit bits att) = (other != att && attIsnull other bits) := by
  unfold attIsnull setBit
  by_cases byte : other / isnullAttrsPerByte = att / isnullAttrsPerByte
  · rw [byte, List.getD_eq_getElem?_getD, List.getElem?_modify_eq, List.getD_eq_getElem?_getD,
      List.getElem?_eq_getElem inside]
    simp only [Option.map_eq_map, Option.map_some, Option.getD_some, UInt8.toNat_or, Nat.testBit_or,
      UInt8.toNat_ofNat']
    have small : att % isnullAttrsPerByte < 8 := Nat.mod_lt _ (by decide)
    have little : 2 ^ (att % isnullAttrsPerByte) < 2 ^ 8 := Nat.pow_lt_pow_right (by decide) small
    rw [Nat.mod_eq_of_lt little, Nat.testBit_two_pow]
    by_cases same : other = att
    · simp [same]
    · have apart : att % isnullAttrsPerByte ≠ other % isnullAttrsPerByte := by
        intro equal
        have first := Nat.div_add_mod other isnullAttrsPerByte
        have second := Nat.div_add_mod att isnullAttrsPerByte
        rw [byte, ← equal] at first
        exact same (first.symm.trans second)
      simp [same, apart]
  · have same : other ≠ att := fun equal => byte (by rw [equal])
    rw [List.getD_eq_getElem?_getD, List.getElem?_modify_ne _ _ (Ne.symm byte), ← List.getD_eq_getElem?_getD]
    simp [same]

theorem attIsnull_append {bits : List UInt8} {att : Nat} (inside : att / isnullAttrsPerByte < bits.length)
    (rest : List UInt8) : attIsnull att (bits ++ rest) = attIsnull att bits := by
  unfold attIsnull
  rw [List.getD_append _ _ _ _ inside]

@[simp] theorem nullsBefore_zero : nullsBefore isnull 0 = 0 := rfl

theorem nullsBefore_succ (count : Nat) :
    nullsBefore isnull (count + 1) = nullsBefore isnull count + if isnull count then 1 else 0 := by
  rw [nullsBefore, List.range_succ, List.countP_append, List.countP_singleton]
  rfl

theorem nullsBefore_mono {count more : Nat} (order : count ≤ more) :
    nullsBefore isnull count ≤ nullsBefore isnull more := by
  induction order with
  | refl => exact le_rfl
  | step _ hyp => exact hyp.trans (by rw [nullsBefore_succ]; omega)

def reserveList (isnull keeps : Nat → Bool) (count : Nat) : List Bool :=
  ((List.range count).filter isnull).map keeps

theorem length_reserveList (isnull keeps : Nat → Bool) (count : Nat) :
    (reserveList isnull keeps count).length = nullsBefore isnull count := by
  rw [reserveList, List.length_map, nullsBefore, List.countP_eq_length_filter]

theorem reserveList_succ (isnull keeps : Nat → Bool) (count : Nat) :
    reserveList isnull keeps (count + 1) =
      reserveList isnull keeps count ++ if isnull count then [keeps count] else [] := by
  rw [reserveList, List.range_succ, List.filter_append, List.map_append]
  cases null : isnull count <;> simp [reserveList, null]

theorem reserveList_getD {isnull : Nat → Bool} (keeps : Nat → Bool) {i count : Nat} (inside : i < count)
    (null : isnull i = true) :
    (reserveList isnull keeps count).getD (nullsBefore isnull i) false = keeps i := by
  induction count with
  | zero => exact absurd inside (Nat.not_lt_zero i)
  | succ count hyp =>
    rw [reserveList_succ]
    have size := length_reserveList isnull keeps count
    rcases Nat.lt_succ_iff_lt_or_eq.mp inside with before | rfl
    · have fewer : nullsBefore isnull (i + 1) ≤ nullsBefore isnull count := nullsBefore_mono isnull before
      rw [nullsBefore_succ, null, if_pos rfl] at fewer
      rw [List.getD_append _ _ _ _ (by omega), hyp before]
    · rw [null, if_pos rfl, List.getD_append_right _ _ _ _ size.le, size, Nat.sub_self]
      rfl

/-- Whether space is reserved in a formed tuple, for null after null. -/
def reserves (enableReserve : Bool) (count : Nat) : List Bool :=
  reserveList isnull (reserved desc enableReserve) count

/-- The bitmap after `count` of `natts` attributes, and the position of the next reserve bit. -/
structure BitsFilled (natts : Nat) (isnull keeps : Nat → Bool) (bitmapBytes count : Nat)
    (bitmap : List UInt8) (reserve : Nat) : Prop where
  length : bitmap.length = bitmapBytes
  reserve : reserve = natts + nullsBefore isnull count
  nulls : ∀ i < natts, attIsnull i bitmap = !(decide (i < count) && !isnull i)
  reserveBits : ∀ null, attIsnull (natts + null) bitmap = !(reserveList isnull keeps count).getD null false

theorem div_isnullAttrsPerByte_lt {att bytes : Nat} (inside : att < bytes * 8) :
    att / isnullAttrsPerByte < bytes :=
  Nat.div_lt_of_lt_mul (by rw [isnullAttrsPerByte]; omega)

namespace BitsFilled

variable {natts : Nat} {isnull keeps : Nat → Bool} {bitmapBytes count : Nat} {bitmap : List UInt8}
  {reserve : Nat}

theorem start (natts : Nat) (isnull keeps : Nat → Bool) (bitmapBytes : Nat) :
    BitsFilled natts isnull keeps bitmapBytes 0 (List.replicate bitmapBytes 0) natts := by
  have clear (att : Nat) : attIsnull att (List.replicate bitmapBytes 0) = true := by
    unfold attIsnull
    rw [List.getD_eq_getElem?_getD, List.getElem?_replicate]
    split <;> simp
  exact ⟨List.length_replicate, rfl, fun i _ => by simp [clear], fun null => by simp [clear, reserveList]⟩

theorem lt_succ_decide (i count : Nat) : decide (i < count + 1) =
    (decide (i = count) || decide (i < count)) := by
  simp only [Nat.lt_succ_iff_lt_or_eq, Bool.decide_or]
  exact Bool.or_comm _ _

theorem later_null (null : isnull count = true) (i : Nat) :
    (decide (i < count + 1) && !isnull i) = (decide (i < count) && !isnull i) := by
  rw [lt_succ_decide]
  by_cases same : i = count
  · simp [same, null]
  · simp [same]

theorem nullsBefore_null (null : isnull count = true) :
    nullsBefore isnull (count + 1) = nullsBefore isnull count + 1 := by
  rw [nullsBefore_succ, if_pos null]

section

variable (filled : BitsFilled natts isnull keeps bitmapBytes count bitmap reserve)

include filled

theorem keep (null : isnull count = true) (kept : keeps count = true) (room : reserve < bitmapBytes * 8) :
    BitsFilled natts isnull keeps bitmapBytes (count + 1) (setBit bitmap reserve) (reserve + 1) := by
  have within : reserve / isnullAttrsPerByte < bitmap.length := by
    rw [filled.length]
    exact div_isnullAttrsPerByte_lt room
  have position := filled.reserve
  have more := nullsBefore_null null
  have size := length_reserveList isnull keeps count
  refine ⟨by rw [length_setBit, filled.length], by rw [position, more, Nat.add_assoc], ?_, ?_⟩
  · intro i known
    have other : (i != reserve) = true := by
      rw [bne_iff_ne]
      omega
    rw [attIsnull_setBit within, other, Bool.true_and, filled.nulls i known, later_null null]
  · intro place
    rw [attIsnull_setBit within, filled.reserveBits, reserveList_succ, null, if_pos rfl, kept, position]
    by_cases same : place = nullsBefore isnull count
    · rw [same, List.getD_append_right _ _ _ _ size.le, size, Nat.sub_self]
      simp
    · have other : (natts + place != natts + nullsBefore isnull count) = true := by
        rw [bne_iff_ne]
        omega
      rw [other, Bool.true_and]
      by_cases before : place < nullsBefore isnull count
      · rw [List.getD_append _ _ _ _ (by omega)]
      · rw [List.getD_eq_default _ _ (by omega), List.getD_eq_default _ _ (by
          rw [List.length_append, size, List.length_singleton]
          omega)]

theorem skip (null : isnull count = true) (free : keeps count = false) :
    BitsFilled natts isnull keeps bitmapBytes (count + 1) bitmap (reserve + 1) := by
  have more := nullsBefore_null null
  refine ⟨filled.length, by rw [filled.reserve, more, Nat.add_assoc], ?_, ?_⟩
  · intro i known
    rw [filled.nulls i known, later_null null]
  · intro place
    rw [filled.reserveBits, reserveList_succ, null, if_pos rfl, free]
    have size := length_reserveList isnull keeps count
    by_cases before : place < nullsBefore isnull count
    · rw [List.getD_append _ _ _ _ (by omega)]
    · rw [List.getD_append_right _ _ _ _ (by omega), List.getD_eq_default _ _ (by omega)]
      generalize place - (reserveList isnull keeps count).length = behind
      cases behind <;> rfl

theorem value (value : isnull count = false) (inside : count < natts) (room : natts ≤ bitmapBytes * 8) :
    BitsFilled natts isnull keeps bitmapBytes (count + 1) (setBit bitmap count) reserve := by
  have within : count / isnullAttrsPerByte < bitmap.length := by
    rw [filled.length]
    exact div_isnullAttrsPerByte_lt (by omega)
  have more : nullsBefore isnull (count + 1) = nullsBefore isnull count := by
    rw [nullsBefore_succ, value]
    rfl
  refine ⟨by rw [length_setBit, filled.length], by rw [filled.reserve, more], ?_, ?_⟩
  · intro i known
    rw [attIsnull_setBit within, filled.nulls i known, lt_succ_decide]
    by_cases same : i = count
    · simp [same, value]
    · simp [same, bne_iff_ne.mpr same]
  · intro place
    have other : (natts + place != count) = true := by
      rw [bne_iff_ne]
      omega
    rw [attIsnull_setBit within, other, Bool.true_and, filled.reserveBits, reserveList_succ, value,
      if_neg (by decide), List.append_nil]

end

end BitsFilled

section Fill

variable {desc : TupleDesc} {values : Nat → List UInt8} {isnull : Nat → Bool} {enableReserve : Bool}

/-- The bitmap has room for the null bits, and for the reserve bits if there are any. -/
structure Room (desc : TupleDesc) (isnull : Nat → Bool) (enableReserve : Bool) (bitmapBytes : Nat) : Prop where
  nulls : desc.natts ≤ bitmapBytes * 8
  reserveBits : enableReserve = true → desc.natts + nullsBefore isnull desc.natts ≤ bitmapBytes * 8

theorem filled_foldl (values : Nat → List UInt8) (begin : Nat) {bitmapBytes count : Nat}
    (room : Room desc isnull enableReserve bitmapBytes) (inside : count ≤ desc.natts) :
    BitsFilled desc.natts isnull (reserved desc enableReserve) bitmapBytes count
      ((List.range count).foldl (fillAttr desc values isnull true begin enableReserve)
        { bitmap := List.replicate bitmapBytes 0, reserve := desc.natts }).bitmap
      ((List.range count).foldl (fillAttr desc values isnull true begin enableReserve)
        { bitmap := List.replicate bitmapBytes 0, reserve := desc.natts }).reserve := by
  induction count with
  | zero => exact .start _ _ _ _
  | succ count hyp =>
    have filled := hyp (Nat.le_of_succ_le inside)
    rw [List.range_succ, List.foldl_append, List.foldl_cons, List.foldl_nil]
    generalize (List.range count).foldl _ _ = state at filled ⊢
    rw [fillAttr, Bool.true_and]
    cases null : isnull count with
    | true =>
      cases kept : reserved desc enableReserve count with
      | true =>
        have enabled : enableReserve = true := by
          rw [reserved, Bool.and_eq_true, Bool.and_eq_true] at kept
          exact kept.1.1
        have fewer : nullsBefore isnull (count + 1) ≤ _ := nullsBefore_mono isnull inside
        rw [BitsFilled.nullsBefore_null null] at fewer
        have position := filled.reserve
        have reserveBits := room.reserveBits enabled
        exact filled.keep null kept (by omega)
      | false => exact filled.skip null kept
    | false => exact filled.value null inside room.nulls

theorem hasVarWidth_foldl {hasnull : Bool} {begin count : Nat} {start : FillState}
    (fixed : ((List.range count).foldl (fillAttr desc values isnull hasnull begin enableReserve)
      start).hasVarWidth = false) :
    ∀ i < count, (hasnull && isnull i) = false → 0 < (desc.attrs i).attlen := by
  induction count with
  | zero => exact fun i inside => absurd inside (Nat.not_lt_zero i)
  | succ count hyp =>
    rw [List.range_succ, List.foldl_append, List.foldl_cons, List.foldl_nil] at fixed
    intro i inside known
    rw [fillAttr] at fixed
    rcases Nat.lt_succ_iff_lt_or_eq.mp inside with before | rfl
    · refine hyp ?_ i before known
      split_ifs at fixed
      · exact fixed
      · exact fixed
      all_goals
        simp only [Bool.or_eq_false_iff] at fixed
        exact fixed.1.1
    · rw [known, if_neg (by decide)] at fixed
      simp only [Bool.or_eq_false_iff, beq_eq_false_iff_ne] at fixed
      rcases (desc.attrs i).length with varlena | cstring | positive
      · exact absurd varlena fixed.1.2
      · exact absurd cstring fixed.2
      · exact positive

end Fill

/-- What the loops that read a formed tuple need of it. -/
structure UHeapDiskTuple.Formed (tup : UHeapDiskTuple) (desc : TupleDesc) (enableReserve : Bool)
    (isNulls : Nat → Bool) : Prop where
  natts : tup.natts = desc.natts
  nulls : ∀ i < desc.natts, (tup.hasNulls && attIsnull i tup.data) = isNulls i
  reserveBits : nAttrsReserveSpace desc.natts = true → ∀ null < nullsBefore isNulls desc.natts,
    attIsnull (desc.natts + null) tup.data = !(reserves desc isNulls enableReserve desc.natts).getD null false
  fixed : tup.hasVarWidth = false → ∀ i < desc.natts, isNulls i = false → 0 < (desc.attrs i).attlen
  tHoff : sizeOfUHeapDiskTupleData ≤ tup.tHoff

theorem natts_le_of_nAttrsReserveSpace {nattrs : Nat} (few : nAttrsReserveSpace nattrs = true) :
    nattrs ≤ 976 :=
  of_decide_eq_true few

theorem hoff_lt {natts nullcount : Nat} (few : natts ≤ maxTupleAttributeNumber) (atMost : nullcount ≤ natts) :
    sizeOfUHeapDiskTupleData +
      (if nullcount = 0 then 0
      else if nAttrsReserveSpace natts = true then bitmapLen (natts + nullcount)
        else bitmapLen natts) < 256 := by
  rw [maxTupleAttributeNumber] at few
  rw [sizeOfUHeapDiskTupleData]
  unfold bitmapLen
  split_ifs with _ reverse
  · decide
  · have bound := natts_le_of_nAttrsReserveSpace reverse
    omega
  · omega

theorem nullsBefore_le (isNulls : Nat → Bool) (natts : Nat) : nullsBefore isNulls natts ≤ natts :=
  List.countP_le_length.trans List.length_range.le

theorem uheapFormTuple_formed {desc : TupleDesc} {reserveSpace : Bool} {values : Nat → List UInt8}
    {isNulls : Nat → Bool} {tup : UHeapDiskTuple}
    (formed : uheapFormTuple desc reserveSpace values isNulls = some tup) :
    tup.Formed desc (reserveSpace && nAttrsReserveSpace desc.natts) isNulls := by
  rw [uheapFormTuple] at formed
  split_ifs at formed with many
  obtain rfl := Option.some.inj formed
  have few : desc.natts ≤ maxTupleAttributeNumber := Nat.not_lt.mp many
  have atMost := nullsBefore_le isNulls desc.natts
  have missing (i : Nat) (inside : i < desc.natts) (all : nullsBefore isNulls desc.natts = 0) :
      isNulls i = false := by
    have absent := List.countP_eq_zero.mp all i (List.mem_range.mpr inside)
    exact Bool.eq_false_iff.mpr absent
  have room (nonzero : nullsBefore isNulls desc.natts ≠ 0) :
      Room desc isNulls (reserveSpace && nAttrsReserveSpace desc.natts)
        (if nullsBefore isNulls desc.natts = 0 then 0
        else if nAttrsReserveSpace desc.natts = true
          then bitmapLen (desc.natts + nullsBefore isNulls desc.natts)
        else bitmapLen desc.natts) := by
    rw [if_neg nonzero]
    refine ⟨?_, fun enabled => ?_⟩
    · unfold bitmapLen
      split_ifs <;> omega
    · rw [Bool.and_eq_true] at enabled
      rw [if_pos enabled.2, bitmapLen]
      omega
  obtain ⟨bitmapBytes, size⟩ : ∃ bitmapBytes, bitmapBytes =
    if nullsBefore isNulls desc.natts = 0 then 0
    else if nAttrsReserveSpace desc.natts = true then bitmapLen (desc.natts + nullsBefore isNulls desc.natts)
    else bitmapLen desc.natts := ⟨_, rfl⟩
  simp only [← size] at room ⊢
  refine ⟨rfl, fun i inside => ?_, fun reverse null known => ?_, fun fixed i inside known => ?_, ?_⟩
  · by_cases nonzero : nullsBefore isNulls desc.natts = 0
    · simp [nonzero, missing i inside nonzero]
    · have positive := Nat.pos_of_ne_zero nonzero
      have filled := filled_foldl values (sizeOfUHeapDiskTupleData + bitmapBytes) (room nonzero) le_rfl
      have byte := div_isnullAttrsPerByte_lt (inside.trans_le (room nonzero).nulls)
      simp only [positive, decide_true, Bool.true_and]
      rw [attIsnull_append (by rwa [filled.length]), filled.nulls i inside]
      simp [inside]
  · have positive : 0 < nullsBefore isNulls desc.natts := by omega
    have nonzero := Nat.ne_of_gt positive
    have filled := filled_foldl values (sizeOfUHeapDiskTupleData + bitmapBytes) (room nonzero) le_rfl
    have fits : desc.natts + nullsBefore isNulls desc.natts ≤ bitmapBytes * 8 := by
      rw [size, if_neg nonzero, if_pos reverse, bitmapLen]
      omega
    have byte := div_isnullAttrsPerByte_lt (Nat.lt_of_lt_of_le (Nat.add_lt_add_left known desc.natts) fits)
    simp only [positive, decide_true]
    rw [attIsnull_append (by rwa [filled.length]), filled.reserveBits, reserves]
  · refine hasVarWidth_foldl fixed i inside ?_
    rw [known, Bool.and_false]
  · have small := hoff_lt few atMost
    rw [← size] at small
    change _ ≤ (sizeOfUHeapDiskTupleData + bitmapBytes) % 256
    rw [Nat.mod_eq_of_lt small]
    exact Nat.le_add_right _ _

end OpenGauss.UStore
