import OpenGauss.Lib.Bytes

/-! A ustore heap page. Transaction ids and undo record pointers are compared and stored but never
wrap. -/

namespace OpenGauss.UStore

def blcksz : Nat := 8192

def sizeOfUHeapPageHeaderData : Nat := 56

def sizeOfTD : Nat := 16

def sizeOfRowPtr : Nat := 4

def maxOffsetNumber : Nat := blcksz / sizeOfRowPtr

def frozenTransactionId : Nat := 2

def firstNormalTransactionId : Nat := 3

def uheapDefaultToastTdCount : Nat := 4

def pdHasFreeLines : Nat := 1

inductive RowPtrFlag where
  | unused | normal | redirect | dead
  deriving DecidableEq, Repr

structure RowPtr where
  offset : Nat
  flags : RowPtrFlag
  len : Nat
  deriving DecidableEq, Repr

namespace RowPtr

def isUsed (rp : RowPtr) : Bool := rp.flags != .unused

def isNormal (rp : RowPtr) : Bool := rp.flags == .normal

def setUnused : RowPtr := ⟨0, .unused, 0⟩

def setDead : RowPtr := ⟨0, .dead, 0⟩

def changeLen (rp : RowPtr) (length : Nat) : RowPtr := { rp with len := length }

end RowPtr

structure TD where
  xactid : Nat := 0
  undoRecordPtr : Nat := 0
  deriving DecidableEq, Repr

/-- `td_count` is the number of transaction slots and `pd_lower` ends the row pointers. -/
structure UPage where
  pdFlags : Nat
  pdUpper : Nat
  potentialFreespace : Nat
  pdPruneXid : Nat
  pdXidBase : Nat
  pdMultiBase : Nat
  tds : List TD
  rowPtrs : List RowPtr
  data : Nat → UInt8

namespace UPage

variable (page : UPage)

def tdCount : Nat := page.tds.length

def pdLower : Nat :=
  sizeOfUHeapPageHeaderData + page.tdCount * sizeOfTD + page.rowPtrs.length * sizeOfRowPtr

/-- Row pointers are numbered from one. -/
def rowPtr? (offnum : Nat) : Option RowPtr :=
  if offnum = 0 then none else page.rowPtrs[offnum - 1]?

def setRowPtr (offnum : Nat) (rp : RowPtr) : UPage :=
  { page with rowPtrs := page.rowPtrs.set (offnum - 1) rp }

def write (offset : Nat) (bytes : List UInt8) : UPage :=
  { page with data := Lib.writeAt page.data offset bytes }

def setHasFreeLinePointers : UPage :=
  { page with pdFlags := page.pdFlags ||| pdHasFreeLines }

def setPrunable (xid : Nat) : UPage :=
  if page.pdPruneXid = 0 ∨ xid < page.pdPruneXid then { page with pdPruneXid := xid } else page

/-- `UHeapRecordPotentialFreeSpace`: the sum is unsigned, so a negative one wraps around and is
cut to the writable space. -/
def recordPotentialFreeSpace (delta : Int) : UPage :=
  let maxWritableSpc := blcksz - (sizeOfUHeapPageHeaderData + page.tdCount * sizeOfTD)
  let sum := (((page.potentialFreespace : Int) + delta) % 2 ^ 64).toNat
  { page with potentialFreespace := min sum maxWritableSpc }

def uheapPageSetUndo (transSlotId xid urecptr : Nat) : UPage :=
  if transSlotId ≤ page.tdCount then
    { page with tds := page.tds.set (transSlotId - 1) ⟨xid, urecptr⟩ }
  else page

section SetUndo

variable (page : UPage) (transSlotId xid urecptr : Nat)

/-- Setting a transaction slot changes nothing but the slots. -/
theorem uheapPageSetUndo_eq : page.uheapPageSetUndo transSlotId xid urecptr =
      { page with tds := (page.uheapPageSetUndo transSlotId xid urecptr).tds } := by
  unfold uheapPageSetUndo
  split <;> rfl

@[simp] theorem uheapPageSetUndo_rowPtrs :
    (page.uheapPageSetUndo transSlotId xid urecptr).rowPtrs = page.rowPtrs := by
  rw [uheapPageSetUndo_eq]

@[simp] theorem uheapPageSetUndo_data :
    (page.uheapPageSetUndo transSlotId xid urecptr).data = page.data := by
  rw [uheapPageSetUndo_eq]

@[simp] theorem uheapPageSetUndo_pdFlags :
    (page.uheapPageSetUndo transSlotId xid urecptr).pdFlags = page.pdFlags := by
  rw [uheapPageSetUndo_eq]

@[simp] theorem uheapPageSetUndo_pdPruneXid :
    (page.uheapPageSetUndo transSlotId xid urecptr).pdPruneXid = page.pdPruneXid := by
  rw [uheapPageSetUndo_eq]

@[simp] theorem uheapPageSetUndo_potentialFreespace :
    (page.uheapPageSetUndo transSlotId xid urecptr).potentialFreespace = page.potentialFreespace := by
  rw [uheapPageSetUndo_eq]

@[simp] theorem uheapPageSetUndo_pdXidBase :
    (page.uheapPageSetUndo transSlotId xid urecptr).pdXidBase = page.pdXidBase := by
  rw [uheapPageSetUndo_eq]

@[simp] theorem uheapPageSetUndo_tdCount :
    (page.uheapPageSetUndo transSlotId xid urecptr).tdCount = page.tdCount := by
  unfold uheapPageSetUndo tdCount
  split <;> simp

end SetUndo

def uheapPageGetTDSlotId (xid : Nat) : Option (Nat × Nat) :=
  (page.tds.zipIdx.find? fun slot => slot.1.xactid == xid).map fun slot =>
    (slot.2 + 1, slot.1.undoRecordPtr)

def upageInit (toast : Bool) (tdSlots : Nat) : UPage :=
  let slots := if toast then uheapDefaultToastTdCount else tdSlots
  { pdFlags := 0
    pdUpper := blcksz
    potentialFreespace := blcksz - (sizeOfUHeapPageHeaderData + slots * sizeOfTD)
    pdPruneXid := 0
    pdXidBase := 0
    pdMultiBase := 0
    tds := List.replicate slots {}
    rowPtrs := []
    data := fun _ => 0 }

end UPage

def shortAlign (length : Nat) : Nat := (length + 1) / 2 * 2

def offsetTdId : Nat := 4

def sizeOfUHeapDiskTupleData : Nat := 11

def sizeOfUHeapDiskTupleHeaderExceptXid : Nat := sizeOfUHeapDiskTupleData - offsetTdId

def sizeOfItemPointerData : Nat := 6

def sizeOfSubTransactionId : Nat := 4

def frozenXidBytes : List UInt8 := [2, 0, 0, 0]

inductive UndoType where
  | insert | multiInsert | delete | inplaceUpdate | update | itemIdUnused
  deriving DecidableEq, Repr

structure UndoRecordData where
  urp : Nat
  blkprev : Nat
  blkno : Nat
  utype : UndoType
  offset : Nat
  xid : Nat
  oldXactId : Nat
  containSubXact : Bool
  rawdata : List UInt8
  deriving DecidableEq, Repr

def byteAt (raw : List UInt8) (index : Nat) : UInt8 := raw.getD index 0

def uint16At (raw : List UInt8) (index : Nat) : Nat :=
  (byteAt raw index).toNat + 256 * (byteAt raw (index + 1)).toNat

namespace UndoRecordData

variable (record : UndoRecordData)

def subxidSize : Nat := if record.containSubXact then sizeOfSubTransactionId else 0

/-- What follows the row in the payload of a delete or an update. -/
def extraDataLen : Nat :=
  (if record.utype = .update then sizeOfItemPointerData else 0) + record.subxidSize

def startOffset : Nat := uint16At record.rawdata 0

def endOffset : Nat := uint16At record.rawdata 2

/-- The payload of a restoring record holds at least a row header. -/
def Complete : Prop :=
  (record.utype = .delete ∨ record.utype = .update →
      record.extraDataLen + sizeOfUHeapDiskTupleHeaderExceptXid ≤ record.rawdata.length) ∧
    (record.utype = .inplaceUpdate → sizeOfUHeapDiskTupleData ≤ (byteAt record.rawdata 0).toNat ∧
        (byteAt record.rawdata 0).toNat ≤ record.rawdata.length + 3)

instance : Decidable record.Complete :=
  inferInstanceAs (Decidable ((_ ∨ _ → _ ≤ _) ∧ (_ → _ ≤ _ ∧ _ ≤ _)))

end UndoRecordData

structure UndoRecord extends UndoRecordData where
  complete : toUndoRecordData.Complete

/-- The parts of an in-place update payload. -/
structure InplaceDelta where
  tHoff : Nat
  header : List UInt8
  prefixlen : Nat
  suffixlen : Nat
  middle : List UInt8
  deriving DecidableEq, Repr

/-- The reading positions of the two decoders: header length, header, flags, then the lengths the
flags announce. -/
def InplaceDelta.parse (raw : List UInt8) (subxidSize : Nat) : InplaceDelta :=
  let tHoff := (byteAt raw 0).toNat
  let readSize := 1 + (tHoff - offsetTdId)
  let flags := byteAt raw readSize
  let readSize := readSize + 1
  let hasPrefix := flags &&& 1 ≠ 0
  let prefixlen := if hasPrefix then uint16At raw readSize else 0
  let readSize := if hasPrefix then readSize + 2 else readSize
  let hasSuffix := flags &&& 2 ≠ 0
  let suffixlen := if hasSuffix then uint16At raw readSize else 0
  let readSize := if hasSuffix then readSize + 2 else readSize
  { tHoff
    header := (raw.drop 1).take (tHoff - offsetTdId)
    prefixlen
    suffixlen
    middle := (raw.drop readSize).take (raw.length - readSize - subxidSize) }

/-- The previous version of a row whose current version has `size` bytes, read by offset. -/
def InplaceDelta.oldDiskTuple (delta : InplaceDelta) (row : Nat → UInt8) (size : Nat) : List UInt8 :=
  let tHoff := (row 10).toNat
  let newp := tHoff + delta.prefixlen
  let newlen := size - tHoff
  frozenXidBytes ++ delta.header ++ Lib.readAt row tHoff delta.prefixlen ++ delta.middle ++
    Lib.readAt row (newp + newlen - delta.prefixlen - delta.suffixlen) delta.suffixlen

namespace UndoRecord

variable (record : UndoRecord)

/-- The row a delete, update or in-place update record restores, given the row it finds. -/
def restoredTuple (row : Nat → UInt8) (size : Nat) : Option (List UInt8) :=
  match record.utype with
  | .delete | .update =>
    some (frozenXidBytes ++ record.rawdata.take (record.rawdata.length - record.extraDataLen))
  | .inplaceUpdate =>
    some ((InplaceDelta.parse record.rawdata record.subxidSize).oldDiskTuple row size)
  | _ => none

private theorem header_le_whole {raw : List UInt8} {extra : Nat}
    (whole : extra + sizeOfUHeapDiskTupleHeaderExceptXid ≤ raw.length) :
    sizeOfUHeapDiskTupleData ≤ (frozenXidBytes ++ raw.take (raw.length - extra)).length := by
  simp only [sizeOfUHeapDiskTupleHeaderExceptXid, sizeOfUHeapDiskTupleData, offsetTdId,
    frozenXidBytes, List.length_append, List.length_take, List.length_cons, List.length_nil] at *
  omega

theorem header_le_restoredTuple {row : Nat → UInt8} {size : Nat} {tuple : List UInt8}
    (restored : record.restoredTuple row size = some tuple) :
    sizeOfUHeapDiskTupleData ≤ tuple.length := by
  unfold restoredTuple at restored
  cases kind : record.utype with
  | insert => simp [kind] at restored
  | multiInsert => simp [kind] at restored
  | itemIdUnused => simp [kind] at restored
  | delete =>
    have whole := record.complete.1 (Or.inl kind)
    simp only [kind, Option.some.injEq] at restored
    subst tuple
    exact header_le_whole whole
  | update =>
    have whole := record.complete.1 (Or.inr kind)
    simp only [kind, Option.some.injEq] at restored
    subst tuple
    exact header_le_whole whole
  | inplaceUpdate =>
    obtain ⟨low, high⟩ := record.complete.2 kind
    simp only [kind, Option.some.injEq] at restored
    subst tuple
    simp only [InplaceDelta.oldDiskTuple, InplaceDelta.parse, List.length_append, List.length_take,
      List.length_drop, Lib.length_readAt]
    simp only [sizeOfUHeapDiskTupleData, offsetTdId, frozenXidBytes, List.length_cons, List.length_nil] at *
    omega

end UndoRecord

end OpenGauss.UStore
