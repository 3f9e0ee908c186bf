import OpenGauss.UStore.TupleLayout

/-! The copy of some columns of a tuple on a page, `UHeapGetTuplePartial` of `knl_upage.cpp`. -/

namespace OpenGauss.UStore

open CStore (varsizeAny varattIs1B varhdrsz varhdrszShort)

/-- `LastVarPos`: the position behind the last column that is wanted. -/
def lastVarPos (boolArr : Nat → Bool) : Nat → Nat
  | 0 => 0
  | natts + 1 => if boolArr natts then lastVarPos boolArr natts else natts + 1

/-- What is written and `attrLength`, which is the new one where the header is made shorter. -/
def uheapCopyDtupleVarlena (att : FormPgAttribute) (off : Nat) (val : List UInt8) : List UInt8 × Nat :=
  (storeVarlena att off val, if ¬ varattIs1B val ∧ att.attstorage ≠ .plain ∧ varattCanMakeShort val then
      varsizeAny val - varhdrsz + varhdrszShort
    else varsizeAny val)

/-- The same for an attribute of any type. -/
def copyAtt (att : FormPgAttribute) (off : Nat) (val : List UInt8) : List UInt8 × Nat :=
  if att.attlen = lenVarlena then uheapCopyDtupleVarlena att off val else (storeAtt att off val,
    attSize att val)

/-- The position in the source, the bitmap, the position of the next reserve bit, and the columns. -/
structure CopyState where
  srcOff : Int
  srcnullcount : Nat := 0
  bitmap : List UInt8
  reserve : Nat
  columns : List UInt8 := []

/-- A null of the copy, which may have its space reserved. -/
def CopyState.pass (state : CopyState) (att : FormPgAttribute) (space : Bool) : CopyState :=
  if space then
    { state with
      bitmap := setBit state.bitmap state.reserve
      reserve := state.reserve + 1
      columns := state.columns ++ List.replicate att.attlen.toNat 0 }
  else { state with reserve := state.reserve + 1 }

variable (desc : TupleDesc)

/-- One round of the loops. Only in the second one is the bitmap of the source read. -/
def copyAttr (srcDtup : UHeapDiskTuple) (destNull : Nat → Bool) (hoff : Nat)
    (enableReserve withNulls : Bool) (state : CopyState) (i : Nat) : CopyState :=
  let att := desc.attrs i
  if withNulls && attIsnull i srcDtup.data then
    let space := nAttrsReserveSpace srcDtup.natts && !attIsnull (srcDtup.natts + state.srcnullcount)
        srcDtup.data
    { state.pass att space with
      srcOff := if space then state.srcOff + att.attlen else state.srcOff
      srcnullcount := state.srcnullcount + 1 }
  else
    let srcOff := attStart srcDtup att state.srcOff
    let val := srcDtup.tupPtr srcOff
    if destNull i then
      { state.pass att (att.attbyval && enableReserve) with srcOff := srcOff + attSize att val }
    else
      let (bytes, attrLength) := copyAtt att (hoff + state.columns.length) val
      { state with
        srcOff := srcOff + attrLength
        bitmap := setBit state.bitmap i
        columns := state.columns ++ bytes }

/-- What both functions do, with the bitmap and the columns of the copy as the result. -/
def uheapCopyDiskTuple (destNull : Nat → Bool) (nullsLen : Nat)
    (reserveSpaceForNullableAtts : Bool) (lastVar : Nat) (srcDtup : UHeapDiskTuple)
      (withNulls : Bool) : CopyState :=
  (List.range lastVar).foldl (copyAttr desc srcDtup destNull ((sizeOfUHeapDiskTupleData + nullsLen) % 256)
      (reserveSpaceForNullableAtts && nAttrsReserveSpace srcDtup.natts) withNulls)
    { srcOff := srcDtup.tHoff, bitmap := List.replicate nullsLen 0, reserve := srcDtup.natts }

def uheapCopyDiskTupleNoNull (destNull : Nat → Bool) (nullsLen : Nat)
    (reserveSpaceForNullableAtts : Bool) (lastVar : Nat) (srcDtup : UHeapDiskTuple) : CopyState :=
  uheapCopyDiskTuple desc destNull nullsLen reserveSpaceForNullableAtts lastVar srcDtup false

def uheapCopyDiskTupleWithNulls (destNull : Nat → Bool) (nullsLen : Nat)
    (reserveSpaceForNullableAtts : Bool) (lastVar : Nat) (srcDtup : UHeapDiskTuple) : CopyState :=
  uheapCopyDiskTuple desc destNull nullsLen reserveSpaceForNullableAtts lastVar srcDtup true

def uheapMaxAttrPad : Nat := 3

/-- The bytes of the bitmap and of the reserve bits in a copy. -/
def partialNullsLen (diskTupleNAttrs : Nat) : Nat :=
  (bitmapLen diskTupleNAttrs + if nAttrsReserveSpace diskTupleNAttrs then bitmapLen diskTupleNAttrs
    else 0) % 256

/-- The bitmaps do not fit: the tuple is copied as a whole. -/
def partialFallback (maxUHeapTupleSize : Nat) (item : UHeapDiskTuple) (lastVar : Nat) : Prop :=
  lastVar = 0 ∨ maxUHeapTupleSize <
      sizeOfUHeapDiskTupleData + item.data.length + (partialNullsLen item.natts + uheapMaxAttrPad)

instance (maxUHeapTupleSize : Nat) (item : UHeapDiskTuple) (lastVar : Nat) :
    Decidable (partialFallback maxUHeapTupleSize item lastVar) := inferInstanceAs (Decidable (_ ∨ _))

/-- `UHeapGetTuplePartial` for a row that is not deleted. The bytes behind the columns that the size of the copy
leaves free are not in `data`. -/
def uheapGetTuplePartial (reserveSpaceForNullableAtts : Bool) (maxUHeapTupleSize : Nat)
    (item : UHeapDiskTuple) (lastVar : Nat) (boolArr : Nat → Bool) : UHeapDiskTuple :=
  if partialFallback maxUHeapTupleSize item lastVar then item
  else
    let nullsLen := partialNullsLen item.natts
    let copied :=
      if item.hasNulls then
        uheapCopyDiskTupleWithNulls desc boolArr nullsLen reserveSpaceForNullableAtts lastVar item
      else uheapCopyDiskTupleNoNull desc boolArr nullsLen reserveSpaceForNullableAtts lastVar item
    { item with
      hasNulls := true
      tHoff := (sizeOfUHeapDiskTupleData + nullsLen) % 256
      data := copied.bitmap ++ copied.columns }

theorem unwanted_of_lastVarPos_le {boolArr : Nat → Bool} {natts i : Nat} (behind : lastVarPos boolArr natts ≤ i)
    (inside : i < natts) : boolArr i = true := by
  induction natts with
  | zero => exact absurd inside (Nat.not_lt_zero i)
  | succ natts hyp =>
    rw [lastVarPos] at behind
    split_ifs at behind with unwanted
    · rcases Nat.lt_succ_iff_lt_or_eq.mp inside with before | rfl
      · exact hyp behind before
      · exact unwanted
    · omega

theorem copyAtt_fst (att : FormPgAttribute) (off : Nat) (val : List UInt8) :
    (copyAtt att off val).1 = storeAtt att off val := by
  unfold copyAtt
  split_ifs with varlena
  · have byref := attbyval_eq_false att (by rw [varlena]; decide)
    rw [storeAtt, if_neg (by rw [byref]; decide), if_pos varlena]
    rfl
  · rfl

theorem copyAtt_snd {att : FormPgAttribute} (off : Nat) {val : List UInt8} (long : shortens att val = false) :
    (copyAtt att off val).2 = attSize att val := by
  unfold copyAtt
  split_ifs with varlena
  · rw [attSize_varlena varlena, uheapCopyDtupleVarlena]
    refine if_neg fun held => ?_
    exact of_decide_eq_false long ⟨varlena, Bool.eq_false_iff.mpr held.1, held.2⟩
  · rfl

section Copy

variable {desc : TupleDesc} {item : UHeapDiskTuple} {older : Nat → FormPgAttribute} {isnull keeps : Nat → Bool}
  {val : Nat → List UInt8}

def copyNull (isnull boolArr : Nat → Bool) (i : Nat) : Bool := isnull i || boolArr i

/-- The nulls of the copy that have their space reserved. -/
def copyKeeps (desc : TupleDesc) (isnull keeps : Nat → Bool) (enableReserve : Bool) (i : Nat) : Bool :=
  if isnull i then keeps i else (desc.attrs i).attbyval && enableReserve

/-- What can be read from a value of the source on. -/
def copyVal (desc : TupleDesc) (item : UHeapDiskTuple) (older : Nat → FormPgAttribute)
    (isnull keeps : Nat → Bool)
    (val : Nat → List UInt8) (i : Nat) : List UInt8 :=
  item.tupPtr (attStart item (desc.attrs i) (columnOff item older isnull keeps val i))

/-- The loop has come to a column. Where a header was made shorter the position in the source is wrong behind
it, which does not matter if nothing is copied any more. -/
structure Copies (desc : TupleDesc) (item : UHeapDiskTuple) (older : Nat → FormPgAttribute)
    (isnull keeps : Nat → Bool) (val : Nat → List UInt8) (boolArr : Nat → Bool) (enableReserve : Bool)
    (nullsLen hoff lastVar count : Nat) (state : CopyState) : Prop where
  bits : BitsFilled item.natts (copyNull isnull boolArr)
    (copyKeeps desc isnull keeps enableReserve) nullsLen count
    state.bitmap state.reserve
  columns : state.columns = columnsOf desc.attrs (copyNull isnull boolArr)
    (copyKeeps desc isnull keeps enableReserve) (copyVal desc item older isnull keeps val) hoff count
  srcnullcount : state.srcnullcount = nullsBefore isnull count
  srcOff : state.srcOff = columnOff item older isnull keeps val count ∨
    ∀ later < lastVar, count ≤ later → copyNull isnull boolArr later = true

/-- The header of a column that is copied is not made shorter, or was shorter before, unless the column is the
last one that is copied. -/
def HeadersKept (desc : TupleDesc) (older : Nat → FormPgAttribute) (val : Nat → List UInt8)
    (copyNull : Nat → Bool) (lastVar : Nat) : Prop :=
  ∀ i < lastVar, copyNull i = false → (∃ later < lastVar, i < later ∧ copyNull later = false) →
    shortens (desc.attrs i) (val i) = true → shortens (older i) (val i) = true

variable {boolArr : Nat → Bool} {enableReserve : Bool} {nullsLen hoff lastVar count : Nat} {state : CopyState}

theorem copyAttr_null {withNulls : Bool} (null : (withNulls && attIsnull count item.data) = true) :
    copyAttr desc item boolArr hoff enableReserve withNulls state count =
      { state.pass (desc.attrs count)
          (nAttrsReserveSpace item.natts && !attIsnull (item.natts + state.srcnullcount) item.data) with
        srcOff :=
          if nAttrsReserveSpace item.natts && !attIsnull (item.natts + state.srcnullcount) item.data then
            state.srcOff + (desc.attrs count).attlen
          else state.srcOff
        srcnullcount := state.srcnullcount + 1 } :=
  if_pos null

theorem copyAttr_unwanted {withNulls : Bool} (value : (withNulls && attIsnull count item.data) = false)
    (unwanted : boolArr count = true) :
    copyAttr desc item boolArr hoff enableReserve withNulls state count =
      { state.pass (desc.attrs count) ((desc.attrs count).attbyval && enableReserve) with
        srcOff := attStart item (desc.attrs count) state.srcOff +
          attSize (desc.attrs count) (item.tupPtr (attStart item (desc.attrs count) state.srcOff)) } := by
  rw [copyAttr, if_neg (by rw [value]; decide), if_pos unwanted]

theorem copyAttr_wanted {withNulls : Bool} (value : (withNulls && attIsnull count item.data) = false)
    (wanted : boolArr count = false) :
    copyAttr desc item boolArr hoff enableReserve withNulls state count =
      { state with
        srcOff := attStart item (desc.attrs count) state.srcOff +
          (copyAtt (desc.attrs count) (hoff + state.columns.length)
            (item.tupPtr (attStart item (desc.attrs count) state.srcOff))).2
        bitmap := setBit state.bitmap count
        columns := state.columns ++ storeAtt (desc.attrs count) (hoff + state.columns.length)
          (item.tupPtr (attStart item (desc.attrs count) state.srcOff)) } := by
  rw [copyAttr, if_neg (by rw [value]; decide), if_neg (by rw [wanted]; decide), ← copyAtt_fst]

/-- A null of the copy, with the bits and the space that it has. -/
theorem Copies.pass {space : Bool}
    (copies : Copies desc item older isnull keeps val boolArr enableReserve nullsLen hoff lastVar count state)
    (null : copyNull isnull boolArr count = true)
    (keep : copyKeeps desc isnull keeps enableReserve count = space)
    (room : space = true → state.reserve < nullsLen * 8) :
    BitsFilled item.natts (copyNull isnull boolArr)
      (copyKeeps desc isnull keeps enableReserve) nullsLen (count + 1)
        (state.pass (desc.attrs count) space).bitmap (state.pass (desc.attrs count) space).reserve ∧
      (state.pass (desc.attrs count) space).columns = columnsOf desc.attrs (copyNull isnull boolArr)
        (copyKeeps desc isnull keeps enableReserve) (copyVal desc item older isnull keeps val) hoff
        (count + 1) ∧
      (state.pass (desc.attrs count) space).srcnullcount = state.srcnullcount := by
  rw [columnsOf, null, keep, ← copies.columns, CopyState.pass]
  cases space with
  | true => exact ⟨copies.bits.keep null keep (room rfl), rfl, rfl⟩
  | false => exact ⟨copies.bits.skip null keep, (List.append_nil _).symm, rfl⟩

section

variable (source : LaidOut desc item older isnull keeps val item.natts)
  (enabled : enableReserve = true → nAttrsReserveSpace item.natts = true)
  (nulls : item.natts ≤ nullsLen * 8)
  (room : nAttrsReserveSpace item.natts = true → 2 * item.natts ≤ nullsLen * 8)
  (kept : HeadersKept desc older val (copyNull isnull boolArr) lastVar)
  (reaches : lastVar ≤ item.natts)

include source enabled nulls room kept reaches

theorem Copies.step (inside : count < lastVar)
    (copies : Copies desc item older isnull keeps val boolArr enableReserve nullsLen hoff lastVar count state) :
    Copies desc item older isnull keeps val boolArr enableReserve nullsLen hoff lastVar (count + 1)
      (copyAttr desc item boolArr hoff enableReserve item.hasNulls state count) := by
  have known : count < item.natts := inside.trans_le reaches
  have here := source.nulls count known
  have more := nullsBefore_succ isnull count
  have few := nullsBefore_le (copyNull isnull boolArr) count
  have position := copies.bits.reserve
  have later (all : ∀ later < lastVar, count ≤ later → copyNull isnull boolArr later = true) :
      ∀ later < lastVar, count + 1 ≤ later → copyNull isnull boolArr later = true :=
    fun later below after => all later below (Nat.le_of_succ_le after)
  have space (reverse : nAttrsReserveSpace item.natts = true) : state.reserve < nullsLen * 8 := by
    have double := room reverse
    omega
  cases null : isnull count with
  | true =>
    rw [null] at here more
    have copied : copyNull isnull boolArr count = true := by rw [copyNull, null, Bool.true_or]
    have keeping : copyKeeps desc isnull keeps enableReserve count = keeps count := if_pos null
    have reserve := source.reserveBits count known null
    rw [← copies.srcnullcount] at reserve
    rw [copyAttr_null here, reserve]
    obtain ⟨bits, columns, -⟩ := copies.pass copied keeping fun keep => space <| by
      rw [keep, Bool.and_eq_true] at reserve
      exact reserve.1
    refine ⟨bits, columns, (congrArg (· + 1) copies.srcnullcount).trans more.symm, ?_⟩
    refine copies.srcOff.imp (fun off => ?_) later
    rw [off]
    exact source.skip known null
  | false =>
    rw [null] at here more
    have next := source.next known null rfl
    cases unwanted : boolArr count with
    | true =>
      have copied : copyNull isnull boolArr count = true := by rw [copyNull, unwanted, Bool.or_true]
      have keeping : copyKeeps desc isnull keeps enableReserve count =
          ((desc.attrs count).attbyval && enableReserve) := if_neg (by rw [null]; decide)
      rw [copyAttr_unwanted here unwanted]
      obtain ⟨bits, columns, same⟩ := copies.pass copied keeping fun keep => space <| by
        rw [Bool.and_eq_true] at keep
        exact enabled keep.2
      refine ⟨bits, columns, (same.trans copies.srcnullcount).trans more.symm, ?_⟩
      refine copies.srcOff.imp (fun off => ?_) later
      rw [off]
      exact next
    | false =>
      have copied : copyNull isnull boolArr count = false := by rw [copyNull, null, unwanted, Bool.or_false]
      have off : state.srcOff = columnOff item older isnull keeps val count :=
        copies.srcOff.resolve_right fun all => by
          rw [all count inside le_rfl] at copied
          cases copied
      rw [copyAttr_wanted here unwanted, off]
      refine ⟨copies.bits.value copied known nulls, ?_, copies.srcnullcount.trans more.symm, ?_⟩
      · rw [columnsOf, copied, ← copies.columns]
        rfl
      · by_cases rest : ∃ later < lastVar, count < later ∧ copyNull isnull boolArr later = false
        · left
          obtain ⟨⟨behind, read⟩, -⟩ := source.read known null rfl
          have long : shortens (desc.attrs count)
              (item.tupPtr (attStart item (desc.attrs count) (columnOff item older isnull keeps val count))) =
                false := by
            rw [read, shortens_stored (source.fits count known null) (source.same count known).attlen]
            cases short : shortens (desc.attrs count) (val count) with
            | true => rw [kept count inside copied rest short]; rfl
            | false => rfl
          refine Eq.trans ?_ next
          rw [copyAtt_snd _ long]
        · right
          intro later below after
          by_contra value
          exact rest ⟨later, below, after, Bool.eq_false_iff.mpr value⟩

theorem Copies.run (inside : count ≤ lastVar) :
    Copies desc item older isnull keeps val boolArr enableReserve nullsLen hoff lastVar count
      ((List.range count).foldl (copyAttr desc item boolArr hoff enableReserve item.hasNulls)
        { srcOff := item.tHoff, bitmap := List.replicate nullsLen 0, reserve := item.natts }) := by
  induction count with
  | zero => exact ⟨.start _ _ _ _, rfl, rfl, .inl (add_zero _).symm⟩
  | succ count hyp =>
    rw [List.range_succ, List.foldl_append]
    exact (hyp (Nat.le_of_succ_le inside)).step source enabled nulls room kept reaches inside

end

end Copy

theorem partialNullsLen_room {natts : Nat} (few : natts ≤ maxTupleAttributeNumber) :
    sizeOfUHeapDiskTupleData + partialNullsLen natts < 256 ∧ natts ≤ partialNullsLen natts * 8 ∧
      (nAttrsReserveSpace natts = true → 2 * natts ≤ partialNullsLen natts * 8) := by
  rw [maxTupleAttributeNumber] at few
  rw [sizeOfUHeapDiskTupleData]
  unfold partialNullsLen bitmapLen
  cases reverse : nAttrsReserveSpace natts with
  | true =>
    have bound := natts_le_of_nAttrsReserveSpace reverse
    rw [if_pos rfl]
    omega
  | false =>
    rw [if_neg (by decide)]
    exact ⟨by omega, by omega, by rintro ⟨⟩⟩

section Partial

variable {desc : TupleDesc} {item : UHeapDiskTuple} {older : Nat → FormPgAttribute} {isnull keeps : Nat → Bool}
  {val : Nat → List UInt8} {boolArr : Nat → Bool} {reserveSpace : Bool} {maxUHeapTupleSize lastVar : Nat}

theorem uheapGetTuplePartial_eq (part : ¬ partialFallback maxUHeapTupleSize item lastVar) :
    uheapGetTuplePartial desc reserveSpace maxUHeapTupleSize item lastVar boolArr =
      { item with
        hasNulls := true
        tHoff := (sizeOfUHeapDiskTupleData + partialNullsLen item.natts) % 256
        data :=
          (uheapCopyDiskTuple desc boolArr (partialNullsLen item.natts) reserveSpace lastVar item
            item.hasNulls).bitmap ++
          (uheapCopyDiskTuple desc boolArr (partialNullsLen item.natts) reserveSpace lastVar item
            item.hasNulls).columns } := by
  rw [uheapGetTuplePartial, if_neg part]
  cases item.hasNulls <;> rfl

/-- Where the columns of the copy lie; what is behind the last one that is wanted is null. -/
theorem laidOut_uheapGetTuplePartial (reserveSpace : Bool)
    (source : LaidOut desc item older isnull keeps val item.natts)
    (few : item.natts ≤ maxTupleAttributeNumber) (reaches : lastVar ≤ item.natts)
    (kept : HeadersKept desc older val (copyNull isnull boolArr) lastVar)
    (part : ¬ partialFallback maxUHeapTupleSize item lastVar) :
    ∃ dest, uheapGetTuplePartial desc reserveSpace maxUHeapTupleSize item lastVar boolArr = dest ∧
      dest.natts = item.natts ∧
      LaidOut desc dest desc.attrs (copyNull isnull boolArr)
        (copyKeeps desc isnull keeps (reserveSpace && nAttrsReserveSpace item.natts))
        (copyVal desc item older isnull keeps val) lastVar ∧
      ∀ i < item.natts, lastVar ≤ i → (dest.hasNulls && attIsnull i dest.data) = true := by
  obtain ⟨small, nulls, room⟩ := partialNullsLen_room few
  have enabled : (reserveSpace && nAttrsReserveSpace item.natts) = true →
      nAttrsReserveSpace item.natts = true :=
    fun held => (Bool.and_eq_true _ _ ▸ held).2
  refine ⟨_, uheapGetTuplePartial_eq part, rfl, ?_⟩
  rw [Nat.mod_eq_of_lt small]
  have copies : Copies desc item older isnull keeps val boolArr (reserveSpace && nAttrsReserveSpace item.natts)
      (partialNullsLen item.natts) (sizeOfUHeapDiskTupleData + partialNullsLen item.natts) lastVar lastVar
      (uheapCopyDiskTuple desc boolArr (partialNullsLen item.natts)
      reserveSpace lastVar item item.hasNulls) := by
    rw [uheapCopyDiskTuple, Nat.mod_eq_of_lt small]
    exact Copies.run source enabled nulls room kept reaches le_rfl
  generalize uheapCopyDiskTuple desc boolArr _ reserveSpace lastVar item item.hasNulls = copied at copies ⊢
  have length := copies.bits.length
  have nullBit (i : Nat) (inside : i < item.natts) :
      attIsnull i (copied.bitmap ++ copied.columns) =
      !(decide (i < lastVar) && !copyNull isnull boolArr i) := by
    rw [attIsnull_append (by rw [length]; exact div_isnullAttrsPerByte_lt (by omega)),
      copies.bits.nulls i inside]
  refine ⟨⟨Nat.le_add_right _ _, ?_, fun _ _ => ⟨rfl, rfl, rfl⟩, fun i inside => ?_, fun i inside null => ?_,
    fun i inside null keep => ?_, fun i inside value => ?_⟩, fun i inside behind => ?_⟩
  · rw [tupPtr_tHoff rfl (by rw [length]), copies.columns]
  · rw [Bool.true_and, nullBit i (inside.trans_le reaches), decide_eq_true inside, Bool.true_and, Bool.not_not]
  · have own := reserveList_getD (copyKeeps desc isnull keeps (reserveSpace && nAttrsReserveSpace item.natts))
      inside null
    change (nAttrsReserveSpace item.natts && !attIsnull
      (item.natts + nullsBefore (copyNull isnull boolArr) i) _) = _
    cases reverse : nAttrsReserveSpace item.natts with
    | true =>
      have double := room reverse
      have fewer := nullsBefore_le (copyNull isnull boolArr) i
      rw [attIsnull_append (by rw [length]; exact div_isnullAttrsPerByte_lt (by omega)),
        copies.bits.reserveBits,
        own, Bool.not_not, Bool.true_and, reverse]
    | false =>
      rw [Bool.false_and, copyKeeps, Bool.and_false, Bool.and_false]
      split_ifs with known
      · rw [← source.reserveBits i (inside.trans_le reaches) known, reverse, Bool.false_and]
      · rfl
  · rw [copyKeeps] at keep
    split_ifs at keep with known
    · rw [← (source.same i (inside.trans_le reaches)).attlen]
      exact source.keeps i (inside.trans_le reaches) known keep
    · exact (desc.attrs i).byval (Bool.and_eq_true _ _ ▸ keep).1
  · have within := inside.trans_le reaches
    rw [copyNull, Bool.or_eq_false_iff] at value
    obtain ⟨⟨rest, read⟩, -⟩ := source.read within value.1 rfl
    rw [copyVal, read]
    exact (source.same i within).fits (fits_stored (source.fits i within value.1) rest)
  · rw [Bool.true_and, nullBit i inside, decide_eq_false (Nat.not_lt.mpr behind)]
    rfl

/-- Deforming the copy gives the values of the columns that are wanted, and a null for every other. -/
def CopyReads (desc : TupleDesc) (item dest : UHeapDiskTuple) (boolArr : Nat → Bool)
    (old : Nat → Option Datum) : Prop :=
  ∀ i < desc.natts, (uheapDeformTuple desc dest old i).map (Datum.content (desc.attrs i) dest) =
    if boolArr i then none else (uheapDeformTuple desc item old i).map (Datum.content (desc.attrs i) item)

theorem partial_inside (source : LaidOut desc item older isnull keeps val item.natts)
    (few : item.natts ≤ maxTupleAttributeNumber) (known : item.natts ≤ desc.natts)
    (reaches : lastVarPos boolArr desc.natts ≤ item.natts)
    (kept : HeadersKept desc older val (copyNull isnull boolArr) (lastVarPos boolArr desc.natts))
    (part : ¬ partialFallback maxUHeapTupleSize item (lastVarPos boolArr desc.natts))
      (old : Nat → Option Datum) :
    ∃ dest, uheapGetTuplePartial desc reserveSpace maxUHeapTupleSize item
      (lastVarPos boolArr desc.natts) boolArr =
        dest ∧ dest.natts = item.natts ∧
      ∀ i < item.natts, (uheapDeformTuple desc dest old i).map (Datum.content (desc.attrs i) dest) =
        if boolArr i then none
        else (uheapDeformTuple desc item old i).map (Datum.content (desc.attrs i) item) := by
  obtain ⟨dest, copied, natts, laidOut, behind⟩ :=
    laidOut_uheapGetTuplePartial reserveSpace source few reaches kept part
  refine ⟨dest, copied, natts, fun i inside => ?_⟩
  have within := inside.trans_le known
  rw [uheapDeformTuple_inside old (natts ▸ inside) within, uheapDeformTuple_inside old inside within,
    source.nulls i inside]
  by_cases last : i < lastVarPos boolArr desc.natts
  · rw [laidOut.nulls i last, (laidOut.loop old last.le).1, (source.loop old inside.le).1]
    cases null : copyNull isnull boolArr i with
    | true =>
      rw [if_pos rfl]
      rw [copyNull, Bool.or_eq_true] at null
      rcases null with absent | unwanted
      · rw [absent, if_pos rfl]
        exact (ite_self _).symm
      · rw [unwanted, if_pos rfl]
        rfl
    | false =>
      obtain ⟨⟨rest, read⟩, -⟩ := laidOut.read last null rfl
      have fits := laidOut.fits i last null
      rw [copyNull, Bool.or_eq_false_iff] at null
      rw [null.1, null.2, if_neg (by decide), if_neg (by decide), if_neg (by decide), Option.map_some,
        Option.map_some, attContent_fetchatt, attContent_fetchatt, read, attContent_stored fits, copyVal]
  · rw [behind i inside (Nat.not_lt.mp last), if_pos rfl,
      unwanted_of_lastVarPos_le (Nat.not_lt.mp last) within, if_pos rfl]
    rfl

end Partial

theorem natts_le_of_uheapFormTuple {desc : TupleDesc} {reserveSpace : Bool} {columns : Nat → List UInt8}
    {isNulls : Nat → Bool} {tup : UHeapDiskTuple}
    (formed : uheapFormTuple desc reserveSpace columns isNulls = some tup) :
    desc.natts ≤ maxTupleAttributeNumber := by
  rw [uheapFormTuple] at formed
  split_ifs at formed with many
  exact Nat.not_lt.mp many

/-- Where the columns that are wanted are ones of the tuple and no header is made shorter, the copy reads as the
tuple, if the columns that the tuple is too old for have no default. -/
theorem copyReads_uheapGetTuplePartial {desc0 desc : TupleDesc} {reserveSpace0 reserveSpace : Bool}
    {columns : Nat → List UInt8} {isNulls : Nat → Bool} {item : UHeapDiskTuple}
    (formed : uheapFormTuple desc0 reserveSpace0 columns isNulls = some item)
    (fits : ∀ i < desc0.natts, isNulls i = false → Fits (desc0.attrs i) (columns i))
    (older : desc0.natts ≤ desc.natts) (same : ∀ i < desc0.natts, SameLayout (desc0.attrs i) (desc.attrs i))
    {boolArr : Nat → Bool} {maxUHeapTupleSize : Nat}
    (part : ¬ partialFallback maxUHeapTupleSize item (lastVarPos boolArr desc.natts))
    (reaches : lastVarPos boolArr desc.natts ≤ item.natts)
    (kept : HeadersKept desc desc0.attrs columns (copyNull isNulls boolArr) (lastVarPos boolArr desc.natts))
    (old : Nat → Option Datum) :
    CopyReads desc item
        (uheapGetTuplePartial desc reserveSpace maxUHeapTupleSize item (lastVarPos boolArr desc.natts) boolArr)
        boolArr old ↔
      ∀ i < desc.natts, item.natts ≤ i → desc.initdefvals i = none := by
  have source := laidOut_uheapFormTuple formed same fits
  have natts : item.natts = desc0.natts := (uheapFormTuple_formed formed).natts
  have few := natts_le_of_uheapFormTuple formed
  rw [← natts] at source older few
  obtain ⟨dest, copied, destNatts, inside⟩ := partial_inside source few older reaches kept part old
  rw [copied]
  have added (i : Nat) (below : i < desc.natts) (later : item.natts ≤ i) :
      ((uheapDeformTuple desc dest old i).map (Datum.content (desc.attrs i) dest) =
        if boolArr i then none else (uheapDeformTuple desc item old i).map
          (Datum.content (desc.attrs i) item)) ↔
      desc.initdefvals i = none := by
    rw [unwanted_of_lastVarPos_le (reaches.trans later) below, if_pos rfl,
      uheapDeformTuple_initDefVal old (destNatts ▸ later) below, heapGetInitDefVal, Option.map_eq_none_iff,
      Option.map_eq_none_iff]
  constructor
  · intro reads i below later
    exact (added i below later).mp (reads i below)
  · intro absent i below
    by_cases later : item.natts ≤ i
    · exact (added i below later).mpr (absent i below later)
    · exact inside i (Nat.not_le.mp later)

/-- A fourth column that was added without a default. -/
def withAddedColumn : TupleDesc := { textAndIntegers with natts := 4 }

/-- A copy without the varlena in front and the added column, with a null that keeps its space. -/
theorem copyReads_uheapGetTuplePartial_sample :
    CopyReads withAddedColumn ⟨3, true, true, 12, [13, 5, 7, 0, 0, 0, 0, 9, 0, 0, 0]⟩
        (uheapGetTuplePartial withAddedColumn true 8000 ⟨3, true, true, 12, [13, 5, 7, 0, 0, 0, 0, 9, 0, 0, 0]⟩
          (lastVarPos (fun att => att == 0 || att == 3) 4) fun att => att == 0 || att == 3)
        (fun att => att == 0 || att == 3) (fun _ => none) ↔
      ∀ i < 4, 3 ≤ i → withAddedColumn.initdefvals i = none := by
  have formed : uheapFormTuple textAndIntegers true (fun att => if att = 0 then [5, 7] else [9, 0, 0, 0])
      (fun att => att == 1) = some ⟨3, true, true, 12, [13, 5, 7, 0, 0, 0, 0, 9, 0, 0, 0]⟩ := by decide
  refine @copyReads_uheapGetTuplePartial _ withAddedColumn _ _ _ _ _ formed (fun i inside value => ?_)
    (by decide) (fun _ _ => ⟨rfl, rfl, rfl⟩) _ _ (by decide) (by decide) ?_ _
  · have known : i = 0 ∨ i = 2 := by
      change i < 3 at inside
      have other : i ≠ 1 := by simpa using value
      omega
    rcases known with rfl | rfl
    · exact ⟨by decide, by decide⟩
    · exact ⟨by decide, by decide⟩
  · intro i inside copied _ short
    exact short

/-- Four columns of a table that has six more by now. -/
def tenIntegers : TupleDesc where
  natts := 10
  attrs := fun _ => textAndIntegers.attrs 1

/-- The null bit of the first column that is added is the reserve bit of the first null. -/
theorem not_copyReads_uheapGetTuplePartial :
    ¬ ∀ (desc0 desc : TupleDesc) (reserveSpace0 reserveSpace : Bool) (columns : Nat → List UInt8)
      (isNulls : Nat → Bool) (item : UHeapDiskTuple),
      uheapFormTuple desc0 reserveSpace0 columns isNulls = some item →
      (∀ i < desc0.natts, isNulls i = false → Fits (desc0.attrs i) (columns i)) → desc0.natts ≤ desc.natts →
      (∀ i < desc0.natts, SameLayout (desc0.attrs i) (desc.attrs i)) →
      ∀ (boolArr : Nat → Bool) (maxUHeapTupleSize : Nat),
        ¬ partialFallback maxUHeapTupleSize item (lastVarPos boolArr desc.natts) →
        ∀ old : Nat → Option Datum, CopyReads desc item
          (uheapGetTuplePartial desc reserveSpace maxUHeapTupleSize item
          (lastVarPos boolArr desc.natts) boolArr)
          boolArr old := by
  intro claim
  have reads := claim { tenIntegers with natts := 4 } tenIntegers false false
    (fun att => [UInt8.ofNat att + 1, 0, 0, 0]) (fun _ => false)
    ⟨4, false, false, 11, [1, 0, 0, 0, 2, 0, 0, 0, 3, 0, 0, 0, 4, 0, 0, 0]⟩ (by decide)
    (fun _ _ _ => ⟨by simp [attSize, tenIntegers, textAndIntegers],
      by simp [tenIntegers, textAndIntegers, lenVarlena]⟩) (by decide)
    (fun _ _ => ⟨rfl, rfl, rfl⟩) (fun att => !(att == 1 || att == 2 || att == 4)) 8000 (by decide)
      (fun _ => none)
    1 (by decide)
  revert reads
  decide

end OpenGauss.UStore
