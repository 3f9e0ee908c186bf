import OpenGauss.Wal.Reservation

/-! The scratch buffer for the headers of a record. -/

namespace OpenGauss.Wal

def sizeOfXLogRecordBlockHeader : Nat := 4

def sizeOfXLogRecordBlockImageHeader : Nat := 4

def sizeOfRelFileNode : Nat := 16

def sizeOfRelFileNodeOld : Nat := 12

/-- The key, the key id, the vector and the tag, the algorithm and three reserved bytes. -/
def sizeOfTdeInfo : Nat := 320 + 40 + 16 + 16 + 1 + 3

def sizeOfBlockNumber : Nat := 4

def xlrMaxBlockId : Nat := 32

def maxSizeOfXLogRecordBlockHeader : Nat :=
  sizeOfXLogRecordBlockHeader + sizeOfXLogRecordBlockImageHeader + sizeOfRelFileNode + sizeOfBlockNumber +
    sizeOfBlockNumber + 1

/-- `HEADER_SCRATCH_SIZE`: the last two are `SizeOfXLogRecordDataHeaderLong` and `SizeOfXlogOrigin`. -/
def headerScratchSize : Nat :=
  sizeOfXLogRecord + maxSizeOfXLogRecordBlockHeader * (xlrMaxBlockId + 1) + (1 + 4) + (4 + 1)

structure RelFileNode where
  spcNode : Nat
  dbNode : Nat
  relNode : Nat
  bucketNode : Int := -1
  opt : Nat := 0

/-- `RelFileNodeEquals` leaves `opt` out. -/
def RelFileNode.equals (first second : RelFileNode) : Bool :=
  first.relNode == second.relNode && first.dbNode == second.dbNode && first.spcNode == second.spcNode &&
    first.bucketNode == second.bucketNode

/-- `IsSegmentFileNode`; 8 is `EXRTO_BLOCK_INFO_SPACE_OID`. -/
def RelFileNode.isSegment (rnode : RelFileNode) : Bool := rnode.bucketNode > -1 && rnode.spcNode != 8

def RelFileNode.needPhysicalLocation (rnode : RelFileNode) : Bool :=
  rnode.isSegment && !(rnode.isSegment && rnode.relNode ≤ 5)

structure RegisteredBuffer where
  rnode : RelFileNode
  forceImage : Bool := false
  noImage : Bool := false
  pageLogical : Bool := false
  pageLsn : Nat := 0
  encrypt : Bool := false

/-- What `XLogRecordAssemble` is called with: the slots of the registered buffers, `none` when not in use.
`vmLocation` is `XLogNeedVMPhysicalLocation` for the record's main data. -/
structure AssembleInput where
  blocks : List (Option RegisteredBuffer)
  admitted : blocks.length ≤ xlrMaxBlockId + 1
  forcePageWrites : Bool := false
  doPageWrites : Bool := true
  redoRecPtr : Nat := 0
  vmLocation : Nat → Bool := fun _ => false
  includeOrigin : Bool := false
  originId : Nat := 0
  sessionOriginId : Nat := 0
  resizeOrVacuum : Bool := false
  istoast : Bool := false
  mainrdataLen : Nat := 0

/-- A write to the scratch buffer: `XLOG_ASSEMBLE_ONE_ITEM`, a single id byte, or the two bytes of a short
main data header. -/
inductive ScratchStep where
  | item (size : Nat)
  | id
  | shortHeader
  deriving DecidableEq

namespace AssembleInput

variable (input : AssembleInput)

def needsBackup (forced : Bool) (regbuf : RegisteredBuffer) : Bool :=
  if forced && !regbuf.noImage then true
  else if regbuf.forceImage then true
  else if regbuf.noImage then false
  else if !input.doPageWrites then false
  else regbuf.pageLsn ≤ input.redoRecPtr

def blockSteps (blockId : Nat) (needsBackup samerel : Bool) (regbuf : RegisteredBuffer) : List ScratchStep :=
  let isCompressedTable := regbuf.rnode.opt != 0
  [.item sizeOfXLogRecordBlockHeader] ++
  (if needsBackup then [.item sizeOfXLogRecordBlockImageHeader] else []) ++
  (if samerel then [] else
    -- the old versions of a compressed table's node have the same size
    [.item (if regbuf.rnode.isSegment || isCompressedTable then sizeOfRelFileNode else sizeOfRelFileNodeOld)] ++
    (if regbuf.encrypt then [.item sizeOfTdeInfo] else []) ++
    [.item 2]) ++
  [.item sizeOfBlockNumber] ++
  (if regbuf.rnode.needPhysicalLocation then
    [.item 1, .item sizeOfBlockNumber] ++
    (if input.vmLocation blockId then [.item 1, .item sizeOfBlockNumber] else [])
  else []) ++
  [.item 8]

/-- The loop over the blocks: a logical page forces the images of the later ones too. -/
def blocksSteps (forced : Bool) (prev : Option RegisteredBuffer) (blockId : Nat) :
    List (Option RegisteredBuffer) → List ScratchStep
  | [] => []
  | none :: rest => blocksSteps forced prev (blockId + 1) rest
  | some regbuf :: rest =>
    let forced := forced || regbuf.pageLogical
    let samerel := prev.any fun last => regbuf.rnode.equals last.rnode
    input.blockSteps blockId (input.needsBackup forced regbuf) samerel regbuf ++
      blocksSteps forced (some regbuf) (blockId + 1) rest

def originSteps : List ScratchStep :=
  let sessionId := if input.originId ≠ 0 then input.originId else input.sessionOriginId
  let defaulted := sessionId == 0 && input.resizeOrVacuum
  if (input.includeOrigin || defaulted) && (sessionId != 0 || defaulted || input.istoast) then [.id, .item 4]
  else []

def mainDataSteps : List ScratchStep :=
  if input.mainrdataLen = 0 then []
  else if 255 < input.mainrdataLen then [.id, .item 4]
  else [.shortHeader]

def steps : List ScratchStep :=
  input.blocksSteps input.forcePageWrites none 0 input.blocks ++ input.originSteps ++ input.mainDataSteps

end AssembleInput

structure Scratch where
  written : Nat
  remained : Int
  deriving DecidableEq

namespace Scratch

def start : Scratch where
  written := sizeOfXLogRecord
  remained := headerScratchSize

/-- `memcpy_s` fails when the item does not fit in `remained_size`; a short header counts one of its bytes. -/
def step (scratch : Scratch) : ScratchStep → Option Scratch
  | .item size =>
    if scratch.remained < size then none
    else some { written := scratch.written + size, remained := scratch.remained - size }
  | .id => some { written := scratch.written + 1, remained := scratch.remained - 1 }
  | .shortHeader => some { written := scratch.written + 2, remained := scratch.remained - 1 }

def uncounted (steps : List ScratchStep) : Nat := steps.count .shortHeader

theorem step_excess {scratch later : Scratch} {step : ScratchStep} (done : scratch.step step = some later) :
    later.written + later.remained = scratch.written + scratch.remained + uncounted [step] := by
  cases step with
  | item size =>
    simp only [Scratch.step] at done
    split_ifs at done with short
    obtain rfl := Option.some.inj done
    simp [uncounted]
  | id =>
    obtain rfl := Option.some.inj done
    simp [uncounted]
  | shortHeader =>
    obtain rfl := Option.some.inj done
    simp [uncounted]
    omega

theorem run_excess {steps : List ScratchStep} {scratch later : Scratch}
    (done : steps.foldlM Scratch.step scratch = some later) :
    later.written + later.remained = scratch.written + scratch.remained + uncounted steps := by
  induction steps generalizing scratch with
  | nil =>
    obtain rfl := Option.some.inj done
    simp [uncounted]
  | cons first rest ih =>
    rw [List.foldlM_cons] at done
    obtain ⟨next, stepped, ran⟩ := Option.bind_eq_some_iff.mp done
    have one := step_excess stepped
    have all := ih ran
    simp only [uncounted, List.count_cons, List.count_nil] at one all ⊢
    push_cast at one ⊢
    omega

end Scratch

/-- Every copy succeeds, the headers stay in the buffer, and `remained_size` is never more than what is left. -/
def AssembleInput.Safe (input : AssembleInput) : Prop :=
  ∀ done rest, input.steps = done ++ rest → ∃ scratch, done.foldlM Scratch.step .start = some scratch ∧
    scratch.written ≤ headerScratchSize ∧ scratch.remained ≤ headerScratchSize - scratch.written

/-- `remained_size` is too large by the fixed-size header all along, and by one more after a short header. -/
theorem headerScratch_unsafe (input : AssembleInput) :
    ¬ input.Safe ∧ ∀ done rest scratch, input.steps = done ++ rest →
      done.foldlM Scratch.step .start = some scratch →
      scratch.remained = headerScratchSize - scratch.written + sizeOfXLogRecord + Scratch.uncounted done := by
  constructor
  · intro safe
    obtain ⟨scratch, ran, -, remained⟩ := safe [] input.steps rfl
    obtain rfl := Option.some.inj ran
    simp [Scratch.start, sizeOfXLogRecord] at remained
  · intro done rest scratch _ ran
    have excess := Scratch.run_excess ran
    simp only [Scratch.start] at excess
    omega

/-- Three encrypted relations in one record: the headers do not fit, and a copy fails. -/
def threeEncrypted : AssembleInput where
  blocks := [1, 2, 3].map fun relNode =>
    some { rnode := { spcNode := 1663, dbNode := 1, relNode }, encrypt := true }
  admitted := by decide
  mainrdataLen := 8

theorem not_safe_threeEncrypted : ¬ threeEncrypted.Safe := by
  intro safe
  obtain ⟨scratch, ran, -⟩ := safe threeEncrypted.steps [] (List.append_nil _).symm
  have failed : threeEncrypted.steps.foldlM Scratch.step .start = none := by decide
  rw [failed] at ran
  cases ran

end OpenGauss.Wal
