import OpenGauss.Cfs.ExtentSteps

/-! Chunk recycling step by step: each extent is sorted in memory, saved in the assist file,
written back, and the assist file marked done. After a crash the assist file decides whether the
extent is written again. -/

namespace OpenGauss.Cfs

universe u v

structure RelFileNode where
  spcNode : Nat := 0
  dbNode : Nat := 0
  relNode : Nat := 0
  bucketNode : Int := -1
  opt : Nat := 0
  deriving DecidableEq, Repr

def mainForknum : Int := 0

structure CfsExtInfo where
  rnode : RelFileNode
  forknum : Int
  extentNumber : Nat
  assistFlag : Nat
  deriving DecidableEq, Repr

/-- `SmgrAssistFileProcess` goes on with the extent. -/
def CfsExtInfo.Live (info : CfsExtInfo) : Prop :=
  (info.rnode.opt ≠ 0 ∧ info.forknum = mainForknum) ∧ info.assistFlag ≠ 0

instance (info : CfsExtInfo) : Decidable info.Live := inferInstanceAs (Decidable (_ ∧ _))

structure ExtentKey where
  rnode : RelFileNode
  extentNumber : Nat
  deriving DecidableEq, Repr

structure ExtentImage (Chunk : Type v) where
  header : CfsExtentHeader
  chunk : Nat → Chunk

structure AssistFile (Chunk : Type v) where
  image : ExtentImage Chunk
  info : CfsExtInfo

/-- Where `CfsRecycleChunkProc` stands: before an extent, or between two of the writes for it. -/
inductive RecyclePc (Chunk : Type v) where
  | idle
  | between (rnode : RelFileNode) (extentNumber : Nat)
  | sorted (key : ExtentKey) (image : ExtentImage Chunk)
  | assisted (key : ExtentKey) (image : ExtentImage Chunk)
  | moved (key : ExtentKey) (image : ExtentImage Chunk)
  | cleared (key : ExtentKey) (image : ExtentImage Chunk)

def RecyclePc.locked {Chunk : Type v} : RecyclePc Chunk → Option ExtentKey
  | .idle | .between _ _ => none
  | .sorted key _ | .assisted key _ | .moved key _ | .cleared key _ => some key

/-- `extent` has the header as it is cached, `disk` has it as it is in the file. -/
structure RecycleSystem (Page : Type u) (Chunk : Type v) where
  extent : ExtentKey → CfsExtent Page Chunk
  disk : ExtentKey → CfsExtentHeader
  assist : Option (AssistFile Chunk) := none
  pc : RecyclePc Chunk := .idle
  /-- The extent whose write failed since the last start. -/
  failed : Option ExtentKey := none

inductive RecycleEvent (Page : Type u) (Chunk : Type v) where
  | page (key : ExtentKey) (event : CfsEvent Page)
  | evict (key : ExtentKey)
  | start (rnode : RelFileNode)
  | advance
  | finish
  /-- `FilePWrite` of the extent stops after some bytes; a chunk and the header may be cut in two. -/
  | fail (written : Nat) (chunk : Chunk) (header : CfsExtentHeader)
  | crash

def CfsEvent.Possible {Page : Type u} {Chunk : Type v} (extent : CfsExtent Page Chunk) : CfsEvent Page → Prop
  | .extend block _ => block < cfsLogicBlocksPerExtent ∧ (block = 0 ↔ extent.present = false)
  | .write block _ | .truncate block => extent.present ∧ block < extent.header.nblocks
  | .recycle | .recover => False

instance {Page : Type u} {Chunk : Type v} (extent : CfsExtent Page Chunk) (event : CfsEvent Page) :
    Decidable (event.Possible extent) := by
  cases event <;> unfold CfsEvent.Possible <;> infer_instance

/-- `CfsWritePage` writes the header only when the address of its block changed. -/
def CfsEvent.keepsHeader {Page : Type u} (before after : CfsExtentHeader) : CfsEvent Page → Bool
  | .write block _ => after.address block = before.address block
  | _ => false

namespace RecycleSystem

variable {Page : Type u} {Chunk : Type v} (compression : RelFileNode → PageCompression Page Chunk)
  (readInfo : List Chunk → CfsExtInfo)

def dataBytes : Nat := cfsLogicBlocksPerExtent * blcksz

def inOrderOffset : Nat := 10

variable (system : RecycleSystem Page Chunk)

def setExtent (key : ExtentKey) (extent : CfsExtent Page Chunk)
    (disk : CfsExtentHeader) : RecycleSystem Page Chunk :=
  { system with
    extent := Function.update system.extent key extent
    disk := Function.update system.disk key disk }

def pageOperation (key : ExtentKey) (event : CfsEvent Page) :
    RecycleSystem Page Chunk :=
  let before := system.extent key
  let after := (compression key.rnode).step before event
  system.setExtent key after
    (if event.keepsHeader before.header after.header then system.disk key else after.header)

def sortOut (compression : PageCompression Page Chunk) (extent : CfsExtent Page Chunk) : ExtentImage Chunk :=
  let assist := compression.sortOutChunk extent extent.header.nblocks
  { header :=
      { nblocks := extent.header.nblocks
        allocatedChunks := assist.chunknum
        recycleInOrder := true
        address := assist.address }
    chunk := assist.chunk }

def firstPage (compression : PageCompression Page Chunk) (image : ExtentImage Chunk) : List Chunk :=
  (List.range' 1 compression.chunksPerBlock).map image.chunk

def punchHole (compression : PageCompression Page Chunk) (header : CfsExtentHeader)
    (chunk : Nat → Chunk) : Nat → Chunk :=
  let punchOffset := (header.allocatedChunks * compression.chunkSize + (minFallocateSize - 1))
      / minFallocateSize *
    minFallocateSize
  let punchSize := dataBytes - punchOffset
  if punchSize ≠ 0 then compression.fileAllocate punchOffset punchSize chunk else chunk

/-- The next step of `CfsRecycleChunkProc`. The write that is to clear `assistFlag` writes the first page of the
assist buffer in place of the information page. -/
def advance : RecycleSystem Page Chunk :=
  match system.pc with
  | .idle => system
  | .between rnode extentNumber =>
    let extent := system.extent ⟨rnode, extentNumber⟩
    if extent.present = false then system
    else if extent.header.recycleInOrder then { system with pc := .between rnode (extentNumber + 1) }
    else { system with pc := .sorted ⟨rnode, extentNumber⟩ (sortOut (compression rnode) extent) }
  | .sorted key image =>
    { system with
      assist := some ⟨image, ⟨key.rnode, mainForknum, key.extentNumber, 1⟩⟩
      pc := .assisted key image }
  | .assisted key image =>
    { system.setExtent key { system.extent key with chunk := image.chunk } image.header with
      pc := .moved key image }
  | .moved key image =>
    { system with
      assist := system.assist.map fun file =>
        { file with info := readInfo (firstPage (compression key.rnode) image) }
      pc := .cleared key image }
  | .cleared key image =>
    let extent := system.extent key
    { system.setExtent key
        { extent with
          header := system.disk key
          chunk := punchHole (compression key.rnode) image.header extent.chunk }
        (system.disk key) with
      pc := .between key.rnode (key.extentNumber + 1) }

def tornChunks (chunkSize written : Nat) (torn : Chunk) (old new : Nat → Chunk) : Nat → Chunk := fun chunkno =>
  if chunkno * chunkSize ≤ written then new chunkno
  else if written ≤ (chunkno - 1) * chunkSize then old chunkno
  else torn

def tornHeader (written : Nat) (torn old new : CfsExtentHeader) : CfsExtentHeader :=
  if written ≤ dataBytes then old
  else if written ≤ dataBytes + inOrderOffset then { torn with recycleInOrder := old.recycleInOrder }
  else { torn with recycleInOrder := new.recycleInOrder }

/-- A failed write of the extent ends the recycling and leaves the assist file and the cached header. -/
def fail (written : Nat) (chunk : Chunk) (header : CfsExtentHeader) :
    RecycleSystem Page Chunk :=
  match system.pc with
  | .assisted key image =>
    if written < dataBytes + blcksz then
      let extent := system.extent key
      { system.setExtent key
          { extent with
            chunk := tornChunks (compression key.rnode).chunkSize written chunk extent.chunk image.chunk }
          (tornHeader written header (system.disk key) image.header) with
        pc := .idle
        failed := some key }
    else system
  | _ => system

/-- `MdAssistFileProcess`; where the extent cannot be read it fails. -/
def mdAssistFileProcess (file : AssistFile Chunk) : RecycleSystem Page Chunk :=
  let key := ⟨file.info.rnode, file.info.extentNumber⟩
  let extent := system.extent key
  if extent.present = false then system
  else if extent.header.recycleInOrder then system
  else system.setExtent key { extent with header := file.image.header, chunk := file.image.chunk }
    file.image.header

def smgrAssistFileProcess (file : AssistFile Chunk) : RecycleSystem Page Chunk :=
  if ¬(file.info.rnode.opt ≠ 0 ∧ file.info.forknum = mainForknum) then system
  else if file.info.assistFlag = 0 then system
  else system.mdAssistFileProcess file

def reload : RecycleSystem Page Chunk :=
  { system with
    extent := fun key => { system.extent key with header := system.disk key }
    pc := .idle
    failed := none }

def restart : RecycleSystem Page Chunk :=
  match system.assist with
  | none => system.reload
  | some file => { system.reload.smgrAssistFileProcess file with assist := none }

/-- Page operations wait for the lock of the header, and after a failed write nothing is recycled before the
next start. -/
def step : RecycleEvent Page Chunk → RecycleSystem Page Chunk
  | .page key event =>
    if system.pc.locked ≠ some key ∧ event.Possible (system.extent key) then
      system.pageOperation compression key event
    else system
  | .evict key =>
    if system.pc.locked ≠ some key then
      system.setExtent key { system.extent key with header := system.disk key } (system.disk key)
    else system
  | .start rnode =>
    match system.pc with
    | .idle =>
      if rnode.opt ≠ 0 ∧ system.failed = none then { system with pc := .between rnode 0 } else system
    | _ => system
  | .advance => system.advance compression readInfo
  | .finish =>
    match system.pc with
    | .between _ _ => { system with assist := none, pc := .idle }
    | _ => system
  | .fail written chunk header => system.fail compression written chunk header
  | .crash => system.restart

def init : RecycleSystem Page Chunk where
  extent key := (compression key.rnode).init
  disk _ := {}

end RecycleSystem

end OpenGauss.Cfs
