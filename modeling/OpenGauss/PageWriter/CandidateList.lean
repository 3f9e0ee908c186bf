import OpenGauss.Lib.Run

/-! Candidate buffers: the threads of the page writer push clean buffers that nobody uses to their
own lists, and backends pop them from any list. The map tells which buffers are in a list. -/

namespace OpenGauss.PageWriter

inductive CandListType where
  | normal
  | nvm
  | seg
  deriving DecidableEq, Repr

/-- `NBuffers`, `NNvmBuffers`, `SEGMENT_BUFFER_NUM` and the number of threads but the main one. -/
structure PoolSizes where
  nBuffers : Nat
  nNvmBuffers : Nat
  segmentBufferNum : Nat
  subNum : Nat

def maxScanBatchNum : Nat := 131072 * 10

def candidateDirtyListLen : Nat := 100

/-- Places of the list count from the start; a place has its slot at the remainder by the size of the list. -/
structure CandidateList where
  candBufList : Nat → Nat := fun _ => 0
  candListSize : Nat := 0
  head : Nat := 0
  tail : Nat := 0
  bufIdStart : Nat := 0
  nextScanLoc : Nat := 0
  nextScanRatioLoc : Nat := 0

namespace PoolSizes

variable (sizes : PoolSizes)

def startId : CandListType → Nat
  | .normal => 0
  | .nvm => sizes.nBuffers
  | .seg => sizes.nBuffers + sizes.nNvmBuffers

def bufferNum : CandListType → Nat
  | .normal => sizes.nBuffers
  | .nvm => sizes.nNvmBuffers
  | .seg => sizes.segmentBufferNum

def listOf (bufId : Nat) : CandListType :=
  if bufId < sizes.startId .nvm then .normal else if bufId < sizes.startId .seg then .nvm else .seg

def share (total thread : Nat) : Nat :=
  total / sizes.subNum + if thread = sizes.subNum then total % sizes.subNum else 0

def initCandidateList (thread : Nat) (kind : CandListType) : CandidateList :=
  if 1 ≤ thread ∧ thread ≤ sizes.subNum then
    { candListSize := sizes.share (sizes.bufferNum kind) thread
      bufIdStart := sizes.startId kind + sizes.bufferNum kind / sizes.subNum * (thread - 1) }
  else {}

end PoolSizes

/-- What a thread sees of a buffer and decides on the way. -/
structure BufView where
  refcount : Nat := 0
  usageCount : Nat := 0
  dirty : Bool := false
  isMeta : Bool := false
  considerUsecount : Bool := false
  /-- `check_buffer_dirty_flag` in recovery -/
  mismatched : Bool := false
  flushable : Bool := true
  next : Nat := 0

/-- The usage count keeps the buffer out of the list. -/
def BufView.used (view : BufView) : Bool := view.considerUsecount ∧ view.usageCount ≠ 0

/-- Where a push goes on: at the next buffer of the scan, with the dirty ones so far, or of the flushed ones. -/
inductive PushCaller where
  | scan (bufId stop : Nat) (dirty : List Nat)
  | flush (rest : List Nat)
  deriving DecidableEq, Repr

inductive PgwrPc where
  | idle
  | scanning (bufId stop : Nat) (dirty : List Nat)
  | locking (bufId stop : Nat) (dirty : List Nat) (mismatched : Bool)
  | deciding (bufId stop : Nat) (dirty : List Nat)
  | flushing (rest : List Nat)
  | relocking (bufId : Nat) (rest : List Nat)
  | redeciding (bufId : Nat) (rest : List Nat)
  | heading (bufId : Nat) (caller : PushCaller)
  | tailing (bufId head : Nat) (caller : PushCaller)
  | storing (bufId tail : Nat) (caller : PushCaller)
  | publishing (bufId tail : Nat) (caller : PushCaller)
  | marking (bufId : Nat) (caller : PushCaller)
  | unlocking (bufId : Nat) (caller : PushCaller)
  deriving DecidableEq, Repr

def PushCaller.resume : PushCaller → PgwrPc
  | .scan bufId stop dirty => .scanning (bufId + 1) stop dirty
  | .flush rest => .flushing rest

/-- The loop over the lists, which starts at `listId`. -/
structure Search where
  kind : CandListType
  listId : Nat
  i : Nat := 0
  needScanDirty : Bool := false
  candidateDirtyList : List Nat := []
  deriving DecidableEq, Repr

/-- A backend in `get_buf_from_candidate_list`, or in one of its siblings, between two accesses. -/
inductive GetBufPc where
  | idle
  | choosing (search : Search)
  | heading (search : Search)
  | tailing (search : Search) (head : Nat)
  | reading (search : Search) (head : Nat)
  | exchanging (search : Search) (head bufId : Nat)
  | popped (search : Search) (bufId : Nat)
  | checking (search : Search) (bufId : Nat)
  | unlocking (search : Search) (bufId : Nat)
  /-- the dirty candidates -/
  | rescanning (rest : List Nat)
  | relocking (bufId : Nat) (rest : List Nat)
  | rechecking (bufId : Nat) (rest : List Nat)
  | reunlocking (bufId : Nat) (rest : List Nat)
  /-- The caller got the buffer with its header locked. -/
  | returned (bufId : Nat)
  deriving DecidableEq, Repr

inductive HeaderLocker where
  | pgwr (thread : Nat)
  | backend (id : Nat)
  deriving DecidableEq, Repr

structure CandidateSystem where
  list : Nat → CandListType → CandidateList
  candidateFreeMap : Nat → Bool := fun _ => false
  hdrLock : Nat → Option HeaderLocker := fun _ => none
  isStandbyMode : Bool := false
  pgwr : Nat → PgwrPc := fun _ => .idle
  getBuf : Nat → GetBufPc := fun _ => .idle

inductive CandidateEvent where
  | setMode (isStandbyMode : Bool)
  /-- The last number is `shared_buffers * shared_buffers_fraction`. -/
  | scan (thread : Nat) (kind : CandListType) (ratioSharedBuffers : Nat)
  | pgwr (thread : Nat) (view : BufView)
  | getBuf (id : Nat) (kind : CandListType) (listId : Nat) (needScanDirty : Bool)
  | backend (id : Nat) (view : BufView)
  | release (id : Nat)

namespace CandidateSystem

variable (sizes : PoolSizes) (system : CandidateSystem)

def setList (thread : Nat) (kind : CandListType) (list : CandidateList) : CandidateSystem :=
  { system with
    list := Function.update system.list thread (Function.update (system.list thread) kind list) }

def setPgwr (thread : Nat) (pc : PgwrPc) : CandidateSystem :=
  { system with pgwr := Function.update system.pgwr thread pc }

def setGetBuf (id : Nat) (pc : GetBufPc) : CandidateSystem :=
  { system with getBuf := Function.update system.getBuf id pc }

def setLock (bufId : Nat) (locker : Option HeaderLocker) : CandidateSystem :=
  { system with hdrLock := Function.update system.hdrLock bufId locker }

def setMark (bufId : Nat) (mark : Bool) : CandidateSystem :=
  { system with candidateFreeMap := Function.update system.candidateFreeMap bufId mark }

def listFor (thread bufId : Nat) : CandidateList := system.list thread (sizes.listOf bufId)

def setListFor (thread bufId : Nat) (list : CandidateList) : CandidateSystem :=
  system.setList thread (sizes.listOf bufId) list

/-- `incre_ckpt_pgwr_scan_candidate_list` up to the scan. The next location of the scan is of its thread only. -/
def scanCandidateList (thread : Nat) (kind : CandListType) (ratioSharedBuffers : Nat) : CandidateSystem :=
  let list := system.list thread kind
  if list.tail - list.head < list.candListSize then
    if system.isStandbyMode ∧ kind ≠ .seg then
      let ratioBufIdStart := ratioSharedBuffers / sizes.subNum * (thread - 1)
      let ratioCandListSize := sizes.share ratioSharedBuffers thread
      let start := max ratioBufIdStart list.nextScanRatioLoc
      let stop := min (start + min ratioCandListSize maxScanBatchNum) (ratioBufIdStart + ratioCandListSize)
      (system.setList thread kind
        { list with
          nextScanRatioLoc := if ratioBufIdStart + ratioCandListSize ≤ stop then ratioBufIdStart
            else stop }).setPgwr
        thread (.scanning start stop [])
    else
      let start := max list.bufIdStart list.nextScanLoc
      let stop := min (start + min list.candListSize maxScanBatchNum) (list.bufIdStart + list.candListSize)
      (system.setList thread kind
        { list with
          nextScanLoc := if list.bufIdStart + list.candListSize ≤ stop then list.bufIdStart else stop }).setPgwr
        thread (.scanning start stop [])
  else system

def stepPgwr (thread : Nat) (view : BufView) : CandidateSystem :=
  match system.pgwr thread with
  | .idle => system
  | .scanning bufId stop dirty =>
    if stop ≤ bufId then system.setPgwr thread (.flushing dirty)
    else if view.mismatched then
      if view.flushable then system.setPgwr thread (.locking bufId stop dirty true)
      else system.setPgwr thread (.scanning (bufId + 1) stop dirty)
    else if 0 < view.refcount then system.setPgwr thread (.scanning (bufId + 1) stop dirty)
    else system.setPgwr thread (.locking bufId stop dirty false)
  | .locking bufId stop dirty mismatched =>
    match system.hdrLock bufId with
    | none =>
      (system.setLock bufId (some (.pgwr thread))).setPgwr thread
        (if mismatched then .unlocking bufId (.scan bufId stop (dirty ++ [bufId]))
        else .deciding bufId stop dirty)
    | some _ => system
  | .deciding bufId stop dirty =>
    system.setPgwr thread (if 0 < view.refcount ∨ view.used then .unlocking bufId (.scan bufId stop dirty)
      else if view.dirty then
        .unlocking bufId (.scan bufId stop (if view.flushable then dirty ++ [bufId] else dirty))
      else if system.candidateFreeMap bufId = false then .heading bufId (.scan bufId stop dirty)
      else .unlocking bufId (.scan bufId stop dirty))
  | .flushing [] => system.setPgwr thread .idle
  | .flushing (first :: rest) =>
    -- the flush sorts the buffers, and drops the ones it did not write
    let bufId := if view.next ∈ rest then view.next else first
    let rest := (first :: rest).erase bufId
    if view.flushable = false ∨ 0 < view.refcount ∨ view.used ∨ system.candidateFreeMap bufId then
      system.setPgwr thread (.flushing rest)
    else system.setPgwr thread (.relocking bufId rest)
  | .relocking bufId rest =>
    match system.hdrLock bufId with
    | none => (system.setLock bufId (some (.pgwr thread))).setPgwr thread (.redeciding bufId rest)
    | some _ => system
  | .redeciding bufId rest =>
    if system.candidateFreeMap bufId = false ∧ view.refcount = 0 ∧ view.used = false ∧ view.dirty = false then
      system.setPgwr thread (.heading bufId (.flush rest))
    else system.setPgwr thread (.unlocking bufId (.flush rest))
  | .heading bufId caller =>
      system.setPgwr thread (.tailing bufId (system.listFor sizes thread bufId).head caller)
  | .tailing bufId head caller =>
    let list := system.listFor sizes thread bufId
    if list.candListSize ≤ list.tail - head then system.setPgwr thread (.marking bufId caller)
    else system.setPgwr thread (.storing bufId list.tail caller)
  | .storing bufId tail caller =>
    let list := system.listFor sizes thread bufId
    (system.setListFor sizes thread bufId
      { list with
        candBufList := Function.update list.candBufList (tail % list.candListSize) bufId }).setPgwr
      thread (.publishing bufId tail caller)
  | .publishing bufId _ caller =>
    let list := system.listFor sizes thread bufId
    (system.setListFor sizes thread bufId { list with tail := list.tail + 1 }).setPgwr thread
      (.marking bufId caller)
  | .marking bufId caller => (system.setMark bufId true).setPgwr thread (.unlocking bufId caller)
  | .unlocking bufId caller => (system.setLock bufId none).setPgwr thread caller.resume

def searchThread (search : Search) : Nat := (search.listId + search.i) % sizes.subNum + 1

def searchList (search : Search) : CandidateList := system.list (searchThread sizes search) search.kind

/-- A buffer that was popped is returned, or the search goes on. -/
def takeCandidate (search : Search) (bufId : Nat) (view : BufView) : GetBufPc :=
  if view.refcount = 0 ∧ view.isMeta = false ∧ ¬ (search.kind = .normal ∧ view.used) then
    if view.dirty = false then .returned bufId
    else if search.needScanDirty ∧ search.candidateDirtyList.length < candidateDirtyListLen ∧
      view.flushable then
      .unlocking { search with candidateDirtyList := search.candidateDirtyList ++ [bufId] } bufId
    else .unlocking search bufId
  else .unlocking search bufId

def stepGetBuf (id : Nat) (view : BufView) : CandidateSystem :=
  match system.getBuf id with
  | .idle | .returned _ => system
  | .choosing search =>
    if search.i < sizes.subNum then system.setGetBuf id (.heading search)
    else if search.needScanDirty then system.setGetBuf id (.rescanning search.candidateDirtyList)
    else system.setGetBuf id .idle
  | .heading search => system.setGetBuf id (.tailing search (system.searchList sizes search).head)
  | .tailing search head =>
    if (system.searchList sizes search).tail ≤ head then
      system.setGetBuf id (.choosing { search with i := search.i + 1 })
    else system.setGetBuf id (.reading search head)
  | .reading search head =>
    let list := system.searchList sizes search
    system.setGetBuf id (.exchanging search head (list.candBufList (head % list.candListSize)))
  | .exchanging search head bufId =>
    let list := system.searchList sizes search
    if list.head = head then
      (system.setList (searchThread sizes search) search.kind { list with head := head + 1 }).setGetBuf id
        (.popped search bufId)
    else system.setGetBuf id (.heading search)
  | .popped search bufId =>
    match system.hdrLock bufId with
    | none => (system.setLock bufId (some (.backend id))).setGetBuf id (.checking search bufId)
    | some _ => system
  | .checking search bufId =>
    if system.candidateFreeMap bufId then
      (system.setMark bufId false).setGetBuf id (takeCandidate search bufId view)
    else system.setGetBuf id (.unlocking search bufId)
  | .unlocking search bufId => (system.setLock bufId none).setGetBuf id (.heading search)
  | .rescanning [] => system.setGetBuf id .idle
  | .rescanning (bufId :: rest) => system.setGetBuf id (.relocking bufId rest)
  | .relocking bufId rest =>
    match system.hdrLock bufId with
    | none => (system.setLock bufId (some (.backend id))).setGetBuf id (.rechecking bufId rest)
    | some _ => system
  | .rechecking bufId rest =>
    if view.refcount = 0 ∧ view.isMeta = false ∧ view.flushable then system.setGetBuf id (.returned bufId)
    else system.setGetBuf id (.reunlocking bufId rest)
  | .reunlocking bufId rest => (system.setLock bufId none).setGetBuf id (.rescanning rest)

def step : CandidateEvent → CandidateSystem
  | .setMode isStandbyMode => { system with isStandbyMode }
  | .scan thread kind ratioSharedBuffers =>
    if system.pgwr thread = .idle ∧ 1 ≤ thread ∧ thread ≤ sizes.subNum then
      system.scanCandidateList sizes thread kind ratioSharedBuffers
    else system
  | .pgwr thread view => system.stepPgwr sizes thread view
  | .getBuf id kind listId needScanDirty =>
    if system.getBuf id = .idle then
      system.setGetBuf id (.choosing { kind, listId, needScanDirty := needScanDirty ∧ kind = .normal })
    else system
  | .backend id view => system.stepGetBuf sizes id view
  | .release id =>
    match system.getBuf id with
    | .returned bufId => (system.setLock bufId none).setGetBuf id .idle
    | _ => system

def init : CandidateSystem := { list := sizes.initCandidateList }

end CandidateSystem

end OpenGauss.PageWriter
