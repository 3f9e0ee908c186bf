import OpenGauss.Lib.LittleEndian
import OpenGauss.Undo.UndoZone

/-! An undo record as bytes: its sections, how `Append` writes them page by page and how `Load`
reads them back. The fields of the page headers are left out. -/

namespace OpenGauss.Undo

structure UndoRecordHeader where
  xid : UInt64
  cid : UInt32
  reloid : UInt32
  relfilenode : UInt32
  utype : UInt8
  uinfo : UInt8
  deriving DecidableEq, Repr

structure UndoRecordBlock where
  blkprev : UInt64
  blkno : UInt32
  offset : UInt16
  deriving DecidableEq, Repr

/-- An undo record in memory; the payload length is that of `rawdata`. The values are those of
`Init2DefVal`. -/
structure UndoRecord where
  whdr : UndoRecordHeader := ⟨0, 0xFFFFFFFF, 0, 0, 0, 0⟩
  wblk : UndoRecordBlock := ⟨0, 0xFFFFFFFF, 0⟩
  prevurp : UInt64 := 0
  oldxactid : UInt64 := 2
  partitionoid : UInt32 := 0
  tablespace : UInt32 := 0
  rawdata : List UInt8 := []
  deriving DecidableEq, Repr

inductive UndoSection where
  | header | block | transaction | oldTd | partition | tablespace | payload | rawdata
  deriving DecidableEq, Repr

def undoSections : List UndoSection :=
  [.header, .block, .transaction, .oldTd, .partition, .tablespace, .payload, .rawdata]

/-- The flag in `uinfo` under which a section is present. -/
def UndoSection.present (uinfo : UInt8) (payloadlen : Nat) : UndoSection → Bool
  | .header => true
  | .block => true
  | .transaction => uinfo &&& 0x02 != 0
  | .oldTd => uinfo &&& 0x08 != 0
  | .partition => uinfo &&& 0x20 != 0
  | .tablespace => uinfo &&& 0x40 != 0
  | .payload => uinfo &&& 0x01 != 0
  | .rawdata => uinfo &&& 0x01 != 0 && decide (0 < payloadlen)

namespace UndoRecord

variable (record : UndoRecord)

def payloadlen : Nat := record.rawdata.length % 65536

def bytes : UndoSection → List UInt8
  | .header =>
    Lib.leBytes 8 record.whdr.xid.toNat ++ Lib.leBytes 4 record.whdr.cid.toNat ++
      Lib.leBytes 4 record.whdr.reloid.toNat ++ Lib.leBytes 4 record.whdr.relfilenode.toNat ++
      [record.whdr.utype, record.whdr.uinfo]
  | .block =>
    Lib.leBytes 8 record.wblk.blkprev.toNat ++ Lib.leBytes 4 record.wblk.blkno.toNat ++
      Lib.leBytes 2 record.wblk.offset.toNat
  | .transaction => Lib.leBytes 8 record.prevurp.toNat
  | .oldTd => Lib.leBytes 8 record.oldxactid.toNat
  | .partition => Lib.leBytes 4 record.partitionoid.toNat
  | .tablespace => Lib.leBytes 4 record.tablespace.toNat
  | .payload => Lib.leBytes 2 record.payloadlen
  | .rawdata => record.rawdata

def present (part : UndoSection) : Bool := part.present record.whdr.uinfo record.payloadlen

/-- The fixed part, the length behind the record, and what the flags select. -/
def fullSize : Nat :=
  22 + 14 + 2 + (if record.present .payload then 2 + record.rawdata.length else 0) +
    (if record.present .transaction then 8 else 0) + (if record.present .oldTd then 8 else 0) +
    (if record.present .partition then 4 else 0) +
    (if record.present .tablespace then 4 else 0)

def recordSize : Nat := record.fullSize % 65536

end UndoRecord

structure WriteCursor where
  storage : Nat → UInt8
  writeptr : Nat
  endptr : Nat
  myBytesWritten : Nat
  alreadyWritten : Nat

def insertUndoBytes (source : List UInt8) (cursor : WriteCursor) : Bool × WriteCursor :=
  if source.length ≤ cursor.myBytesWritten then
    (true, { cursor with myBytesWritten := cursor.myBytesWritten - source.length })
  else
    let remaining := source.length - cursor.myBytesWritten
    let maxWriteOnCurrPage := cursor.endptr - cursor.writeptr
    let canWrite := min remaining maxWriteOnCurrPage
    if canWrite = 0 then (false, cursor)
    else
      (canWrite == remaining,
        { storage := Lib.writeAt cursor.storage cursor.writeptr
            ((source.drop cursor.myBytesWritten).take canWrite)
          writeptr := cursor.writeptr + canWrite
          endptr := cursor.endptr
          myBytesWritten := 0
          alreadyWritten := cursor.alreadyWritten + canWrite })

def insertParts : List (List UInt8) → WriteCursor → Bool × WriteCursor
  | [], cursor => (true, cursor)
  | part :: rest, cursor =>
    match insertUndoBytes part cursor with
    | (true, cursor) => insertParts rest cursor
    | (false, cursor) => (false, cursor)

namespace UndoRecord

variable (record : UndoRecord)

/-- What `Append` writes: the present sections, then the length `undoLen`. -/
def parts (undoLen : Nat) : List (List UInt8) :=
  (undoSections.filter record.present).map record.bytes ++ [Lib.leBytes 2 undoLen]

def stream : List UInt8 := (record.parts record.recordSize).flatten

def append (storage : Nat → UInt8) (blk startingByte alreadyWritten undoLen : Nat) : Bool × WriteCursor :=
  insertParts (record.parts undoLen)
    { storage
      writeptr := blk * blcksz + startingByte
      endptr := blk * blcksz + blcksz
      myBytesWritten := alreadyWritten
      alreadyWritten }

end UndoRecord

/-- The local variables of `ReadUndoRecord`, and the record's memory as far as it is read. -/
structure ReadCursor where
  memory : UndoSection → List UInt8
  readptr : Nat
  endptr : Nat
  myBytesRead : Nat
  alreadyRead : Nat

variable (storage : Nat → UInt8)

/-- Copy into a section's memory behind what is already there. -/
def readUndoBytes (part : UndoSection) (cursor : ReadCursor) : Bool × ReadCursor :=
  let dest := cursor.memory part
  if dest.length ≤ cursor.myBytesRead then
    (true, { cursor with myBytesRead := cursor.myBytesRead - dest.length })
  else
    let remaining := dest.length - cursor.myBytesRead
    let maxReadOnCurrPage := cursor.endptr - cursor.readptr
    let canRead := min remaining maxReadOnCurrPage
    if canRead = 0 then (false, cursor)
    else
      (canRead == remaining,
        { memory := Function.update cursor.memory part
            (dest.take cursor.myBytesRead ++ Lib.readAt storage cursor.readptr canRead ++
              dest.drop (cursor.myBytesRead + canRead))
          readptr := cursor.readptr + canRead
          endptr := cursor.endptr
          myBytesRead := 0
          alreadyRead := cursor.alreadyRead + canRead })

namespace ReadCursor

variable (cursor : ReadCursor)

def uinfo : UInt8 := (cursor.memory .header).getD 21 0

def payloadlen : Nat := Lib.leNat (cursor.memory .payload)

def present (part : UndoSection) : Bool := part.present cursor.uinfo cursor.payloadlen

/-- The payload gets its memory when its length is known; until then the pointer is null. -/
def allocate : UndoSection → ReadCursor
  | .rawdata =>
    if cursor.memory .rawdata = [] then
      { cursor with
        memory := Function.update cursor.memory .rawdata (List.replicate cursor.payloadlen 0) }
    else cursor
  | _ => cursor

/-- A payload that lies on the first page of the record need not be copied: the record points into
the page. -/
def pointsIntoPage (copyData isUndoSplited : Bool) : UndoSection → Bool
  | .rawdata => !copyData && !isUndoSplited &&
      decide (cursor.payloadlen ≤ cursor.endptr - cursor.readptr)
  | _ => false

end ReadCursor

def readParts (storage : Nat → UInt8) (copyData isUndoSplited : Bool) :
    List UndoSection → ReadCursor → Bool × ReadCursor
  | [], cursor => (true, cursor)
  | part :: rest, cursor =>
    if cursor.present part then
      if cursor.pointsIntoPage copyData isUndoSplited part then
        readParts storage copyData isUndoSplited rest
          { cursor with
            memory := Function.update cursor.memory part
              (Lib.readAt storage cursor.readptr cursor.payloadlen) }
      else
        match readUndoBytes storage part (cursor.allocate part) with
        | (true, cursor) => readParts storage copyData isUndoSplited rest cursor
        | (false, cursor) => (false, cursor)
    else readParts storage copyData isUndoSplited rest cursor

def readUndoRecord (copyData : Bool) (memory : UndoSection → List UInt8)
    (blk startingByte alreadyRead : Nat) : Bool × ReadCursor :=
  readParts storage copyData (decide (0 < alreadyRead)) undoSections
    { memory
      readptr := blk * blcksz + startingByte
      endptr := blk * blcksz + blcksz
      myBytesRead := alreadyRead
      alreadyRead }

/-- The loop of `Load` over the pages; `none` is the `PANIC` on a record longer than a block. -/
def loadLoop (storage : Nat → UInt8) (copyData : Bool) : Nat → (UndoSection → List UInt8) → Nat →
    Nat → Nat → Option (UndoSection → List UInt8)
  | 0, _, _, _, _ => none
  | turns + 1, memory, blk, startingByte, alreadyRead =>
    if blcksz < alreadyRead then none
    else
      match readUndoRecord storage copyData memory blk startingByte alreadyRead with
      | (true, cursor) => some cursor.memory
      | (false, cursor) =>
        loadLoop storage copyData turns cursor.memory (blk + 1) blockHeaderSize cursor.alreadyRead

namespace UndoRecord

def ofMemory (memory : UndoSection → List UInt8) : UndoRecord where
  whdr :=
    { xid := UInt64.ofNat (Lib.leNat ((memory .header).take 8))
      cid := UInt32.ofNat (Lib.leNat (((memory .header).drop 8).take 4))
      reloid := UInt32.ofNat (Lib.leNat (((memory .header).drop 12).take 4))
      relfilenode := UInt32.ofNat (Lib.leNat (((memory .header).drop 16).take 4))
      utype := (memory .header).getD 20 0
      uinfo := (memory .header).getD 21 0 }
  wblk :=
    { blkprev := UInt64.ofNat (Lib.leNat ((memory .block).take 8))
      blkno := UInt32.ofNat (Lib.leNat (((memory .block).drop 8).take 4))
      offset := UInt16.ofNat (Lib.leNat (((memory .block).drop 12).take 2)) }
  prevurp := UInt64.ofNat (Lib.leNat (memory .transaction))
  oldxactid := UInt64.ofNat (Lib.leNat (memory .oldTd))
  partitionoid := UInt32.ofNat (Lib.leNat (memory .partition))
  tablespace := UInt32.ofNat (Lib.leNat (memory .tablespace))
  rawdata := memory .rawdata

/-- A page takes all but the first few bytes of a block, so the third page is the last one that is
tried before the `PANIC`. -/
def load (storage : Nat → UInt8) (copyData : Bool) (urp : Nat) : Option UndoRecord :=
  (loadLoop storage copyData 4 (bytes {}) (urp / blcksz) (urp % blcksz) 0).map ofMemory

end UndoRecord

structure PreparedRecord where
  record : UndoRecord
  urp : Nat
  bufidx : Nat
  deriving DecidableEq, Repr

/-- The pages of a zone while a vector is prepared: their bytes, the blocks that the thread has
pinned, and the vector's own list of blocks. -/
structure VectorState where
  storage : Nat → UInt8
  pinned : List Nat
  ubuffers : List Nat := []

def zeroPage (blk : Nat) : Nat → UInt8 :=
  fun address => if address / blcksz = blk then 0 else storage address

namespace VectorState

/-- A block that is not pinned is read, or zeroed in `RBM_ZERO`. -/
def getUndoBufidx (state : VectorState) (blk : Nat) (zero : Bool) : Nat × VectorState :=
  let index := state.ubuffers.findIdx (· == blk)
  let ubuffers := if index < state.ubuffers.length then state.ubuffers else state.ubuffers ++ [blk]
  if blk ∈ state.pinned then (index, { state with ubuffers })
  else
    (index,
      { storage := if zero then zeroPage state.storage blk else state.storage
        pinned := blk :: state.pinned
        ubuffers })

def undosegSize : Nat := 128

/-- The loop that gets the buffers of one record; `curSize` is a `uint16`. -/
def getBuffers (undoSize startingByte : Nat) : Nat → VectorState → Nat → Bool → Nat → VectorState
  | 0, state, _, _, _ => state
  | turns + 1, state, curBlk, zero, curSize =>
    let zero := if curBlk % undosegSize = 0 then false else zero
    let state := (state.getUndoBufidx curBlk zero).2
    let curSize :=
      (if curSize = 0 then blcksz - startingByte else curSize + (blcksz - blockHeaderSize)) % 65536
    if curSize < undoSize then getBuffers undoSize startingByte turns state (curBlk + 1) true curSize
    else state

/-- One record of the vector. The first block's place in the vector's list is the record's
`bufidx`. -/
def prepare (state : VectorState) (record : UndoRecord) (undoPtr : Nat) : PreparedRecord × VectorState :=
  let curBlk := undoPtr / blcksz
  let startingByte := undoPtr % blcksz
  ({ record, urp := undoPtr, bufidx := state.ubuffers.findIdx (· == curBlk) },
    getBuffers record.recordSize startingByte record.recordSize state curBlk
      (startingByte == blockHeaderSize) 0)

/-- `PrepareUndoRecord` from the space that was allocated at `undoPtr` on. -/
def prepareUndoRecord (state : VectorState) : List UndoRecord → Nat → List PreparedRecord × VectorState
  | [], _ => ([], state)
  | record :: rest, undoPtr =>
    let (prepared, state) := state.prepare record undoPtr
    let (others, state) :=
      prepareUndoRecord state rest (offsetPlusUsableBytes undoPtr record.recordSize)
    (prepared :: others, state)

end VectorState

/-- The loop of `InsertPreparedUndo` over the buffers of a record, with the bytes written and
whether `Append` was complete. -/
def insertRecord (record : UndoRecord) (undoLen : Nat) : List Nat → Nat → Nat → (Nat → UInt8) →
    (Nat → UInt8) × Nat × Bool
  | [], _, alreadyWritten, storage => (storage, alreadyWritten, false)
  | blk :: rest, startingByte, alreadyWritten, storage =>
    match record.append storage blk startingByte alreadyWritten undoLen with
    | (true, cursor) => (cursor.storage, cursor.alreadyWritten, true)
    | (false, cursor) =>
      insertRecord record undoLen rest blockHeaderSize cursor.alreadyWritten cursor.storage

def PreparedRecord.insert (prepared : PreparedRecord) (ubuffers : List Nat) (storage : Nat → UInt8) :
    (Nat → UInt8) × Nat × Bool :=
  insertRecord prepared.record prepared.record.recordSize (ubuffers.drop prepared.bufidx)
    (prepared.urp % blcksz) 0 storage

def insertPreparedUndo (ubuffers : List Nat) (storage : Nat → UInt8) (records : List PreparedRecord) :
    Nat → UInt8 :=
  records.foldl (fun storage prepared => (prepared.insert ubuffers storage).1) storage

def maxBufferPerUndo : Nat := 2

/-- A record at `urp` does not need more buffers than the vector reserves for it. -/
def UndoRecord.Admitted (record : UndoRecord) (urp : Nat) : Prop :=
  urp % blcksz + record.fullSize ≤ blcksz + (maxBufferPerUndo - 1) * (blcksz - blockHeaderSize)

instance (record : UndoRecord) (urp : Nat) : Decidable (record.Admitted urp) :=
  inferInstanceAs (Decidable (_ ≤ _))

def VectorAdmits : List UndoRecord → Nat → Prop
  | [], _ => True
  | record :: rest, start =>
    record.Admitted start ∧ VectorAdmits rest (offsetPlusUsableBytes start record.recordSize)

instance decidableVectorAdmits : (records : List UndoRecord) → (start : Nat) →
    Decidable (VectorAdmits records start)
  | [], _ => .isTrue trivial
  | record :: rest, start =>
    have := decidableVectorAdmits rest (offsetPlusUsableBytes start record.recordSize)
    inferInstanceAs (Decidable (_ ∧ _))

/-- `UndoRecordSetUInfo`: a section that has something to say is selected. -/
def UndoRecord.setUInfo (record : UndoRecord) : UndoRecord :=
  { record with
    whdr := { record.whdr with
      uinfo := record.whdr.uinfo ||| (if record.oldxactid ≠ 2 then 0x08 else 0) |||
        (if record.partitionoid ≠ 0 then 0x20 else 0) |||
        (if record.tablespace ≠ 0 then 0x40 else 0) } }

/-- The pages of a zone after a vector of records was prepared and inserted at `start`, and where
its records went. -/
def writeVector (pinned : List Nat) (records : List UndoRecord) (start : Nat) :
    List PreparedRecord × VectorState × (Nat → UInt8) :=
  let (prepared, state) :=
    VectorState.prepareUndoRecord { storage, pinned } (records.map UndoRecord.setUInfo) start
  (prepared, state, insertPreparedUndo state.ubuffers state.storage prepared)

end OpenGauss.Undo
