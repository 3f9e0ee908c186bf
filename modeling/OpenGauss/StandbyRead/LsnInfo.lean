import Mathlib.Tactic

/-! The LSN info file of one redo worker: all blocks of a worker share one growing file of 8 KiB
pages, and each block keeps two doubly linked lists through it, of all its nodes and of its base
page nodes. -/

namespace OpenGauss.StandbyRead

universe u v

def blcksz : Nat := 8192

def lsnInfoHeadSize : Nat := 64

def lsnInfoNodeSize : Nat := 64

def basePageInfoNodeSize : Nat := 128

def lsnNumPerNode : Nat := 5

/-- Positions in the LSN info file; `none` is `LSN_INFO_LIST_HEAD`. -/
structure LsnInfoDoubleList where
  prev : Option Nat
  next : Option Nat
  deriving DecidableEq, Repr

def lsnInfoListInit : LsnInfoDoubleList := ⟨none, none⟩

inductive LsnInfoType where
  | basePage
  | lsns
  deriving DecidableEq, Repr

/-- `lsn` holds the used entries of the array only. -/
structure LsnInfoNode where
  lsnList : LsnInfoDoubleList
  valid : Bool
  type : LsnInfoType
  lsn : List Nat
  deriving DecidableEq, Repr

/-- The part of a base page node after its `lsn_info_node`. -/
structure BasePagePart (Block : Type u) where
  basePageList : LsnInfoDoubleList
  curPageLsn : Nat
  block : Block
  nextBasePageLsn : Nat
  basePagePosition : Nat
  deriving DecidableEq, Repr

/-- What one 64-byte cell of the file holds. -/
inductive Cell (Block : Type u) where
  | unused
  | lsnInfo (node : LsnInfoNode)
  | basePage (part : BasePagePart Block)
  deriving DecidableEq, Repr

/-- The LSN info file, by position, with the bit each page header keeps for a cell. -/
structure LsnTable (Block : Type u) where
  cell : Nat → Cell Block
  basePageMap : Nat → Bool

structure StandbyReadMetaInfo where
  lsnTableRecylePosition : Nat
  lsnTableNextPosition : Nat
  basePageRecylePosition : Nat
  basePageNextPosition : Nat
  recycleLsnPerWorker : Nat
  deriving DecidableEq, Repr

structure BlockMetaInfo where
  valid : Bool
  recordNum : Nat
  minLsn : Nat
  maxLsn : Nat
  lsnInfoList : LsnInfoDoubleList
  basePageInfoList : LsnInfoDoubleList
  deriving DecidableEq, Repr

/-- What one redo worker keeps for standby reads. -/
structure RedoWorker (Block : Type u) (Page : Type v) where
  metaInfo : StandbyReadMetaInfo
  blockInfo : Block → BlockMetaInfo
  lsnTable : LsnTable Block
  basePages : Nat → Option Page

section

variable {Block : Type u} {Page : Type v}

namespace LsnTable

variable (table : LsnTable Block)

def lsnInfo? (position : Nat) : Option LsnInfoNode :=
  match table.cell position with
  | .lsnInfo node => some node
  | _ => none

def basePagePart? (position : Nat) : Option (BasePagePart Block) :=
  match table.cell (position + lsnInfoNodeSize) with
  | .basePage part => some part
  | _ => none

def setCell (position : Nat) (cell : Cell Block) : LsnTable Block :=
  { table with cell := Function.update table.cell position cell }

def modifyLsnInfo (position : Nat) (change : LsnInfoNode → LsnInfoNode) : LsnTable Block :=
  match table.cell position with
  | .lsnInfo node => table.setCell position (.lsnInfo (change node))
  | _ => table

def modifyBasePage (position : Nat) (change : BasePagePart Block → BasePagePart Block) : LsnTable Block :=
  match table.cell (position + lsnInfoNodeSize) with
  | .basePage part => table.setCell (position + lsnInfoNodeSize) (.basePage (change part))
  | _ => table

end LsnTable

/-- The header of a page is jumped over before a node is put on it. -/
def skipPageHeader (position : Nat) : Nat :=
  if position % blcksz = 0 then position + lsnInfoHeadSize else position

/-- A base page node that does not fit on the rest of a page goes on the next one. -/
def skipShortRest (position : Nat) : Nat :=
  if blcksz - position % blcksz < basePageInfoNodeSize then position + lsnInfoNodeSize
  else position

variable (worker : RedoWorker Block Page)

/-- `create_lsn_info_node`: the new node and its position. -/
def createLsnInfoNode (oldTailPos : Nat) (nextLsn : Nat) :
    RedoWorker Block Page × Nat :=
  let insertPos := skipPageHeader worker.metaInfo.lsnTableNextPosition
  let node : LsnInfoNode :=
    { lsnList := { prev := some oldTailPos, next := none }, valid := true, type := .lsns,
      lsn := [nextLsn] }
  ({ worker with
      lsnTable := worker.lsnTable.setCell insertPos (.lsnInfo node)
      metaInfo := { worker.metaInfo with lsnTableNextPosition := insertPos + lsnInfoNodeSize } },
    insertPos)

variable (table : LsnTable Block)

/-- `info_list_modify_old_tail` on the list of all nodes. -/
def LsnTable.modifyOldTail (oldTailPos insertPos : Nat) : LsnTable Block :=
  table.modifyLsnInfo oldTailPos fun node =>
    { node with lsnList := { node.lsnList with next := some insertPos } }

/-- `info_list_modify_old_tail` on the list of base page nodes. -/
def LsnTable.modifyOldBaseTail (oldTailPos insertPos : Nat)
    (currentPageLsn : Nat) : LsnTable Block :=
  table.modifyBasePage oldTailPos fun part =>
    { part with
      basePageList := { part.basePageList with next := some insertPos }
      nextBasePageLsn := currentPageLsn }

def LsnTable.setBasePageMapBit (position : Nat) : LsnTable Block :=
  { table with basePageMap := Function.update table.basePageMap position true }

variable [DecidableEq Block]

def RedoWorker.setBlockInfo (block : Block)
    (info : BlockMetaInfo) : RedoWorker Block Page :=
  { worker with blockInfo := Function.update worker.blockInfo block info }

def insertLsnToLsnInfo (block : Block) (nextLsn : Nat) :
    RedoWorker Block Page :=
  let info := worker.blockInfo block
  match info.lsnInfoList.prev with
  | none => worker
  | some tailPos =>
    match worker.lsnTable.lsnInfo? tailPos with
    | none => worker
    | some node =>
      if node.lsn.length < lsnNumPerNode then
        { worker with
          lsnTable := worker.lsnTable.modifyLsnInfo tailPos fun node =>
            { node with lsn := node.lsn ++ [nextLsn] } }
      else
        let (grown, insertPos) := createLsnInfoNode worker tailPos nextLsn
        { grown with lsnTable := grown.lsnTable.modifyOldTail tailPos insertPos }.setBlockInfo
          block { info with lsnInfoList := { info.lsnInfoList with prev := some insertPos } }

omit [DecidableEq Block] in
/-- `create_base_page_info_node`: the new node and its position. -/
def createBasePageInfoNode (oldLsnTailPos oldBasePageTailPos : Option Nat) (block : Block)
    (currentPageLsn nextLsn : Nat) : RedoWorker Block Page × Nat :=
  let insertPos := skipPageHeader (skipShortRest worker.metaInfo.lsnTableNextPosition)
  let node : LsnInfoNode :=
    { lsnList := { prev := oldLsnTailPos, next := none }, valid := true, type := .basePage,
      lsn := [nextLsn] }
  let part : BasePagePart Block :=
    { basePageList := { prev := oldBasePageTailPos, next := none }
      curPageLsn := currentPageLsn
      block := block
      nextBasePageLsn := 0
      basePagePosition := worker.metaInfo.basePageNextPosition }
  ({ worker with
      lsnTable := ((worker.lsnTable.setCell insertPos (.lsnInfo node)).setCell
        (insertPos + lsnInfoNodeSize) (.basePage part)).setBasePageMapBit insertPos
      metaInfo :=
        { worker.metaInfo with lsnTableNextPosition := insertPos + basePageInfoNodeSize } },
    insertPos)

omit [DecidableEq Block] in
def generateBasePage (page : Page) : RedoWorker Block Page :=
  { worker with
    basePages :=
      Function.update worker.basePages worker.metaInfo.basePageNextPosition (some page)
    metaInfo :=
      { worker.metaInfo with
        basePageNextPosition := worker.metaInfo.basePageNextPosition + blcksz } }

/-- The list ends that `insert_base_page_to_lsn_info` leaves in the block info. -/
def LsnInfoDoubleList.moveTail (list : LsnInfoDoubleList) (insertPos : Nat) : LsnInfoDoubleList :=
  { prev := some insertPos, next := list.next <|> some insertPos }

omit [DecidableEq Block] in
/-- Both old tails of a block are linked to a new base page node. -/
def LsnTable.linkOldTails (oldLsnTailPos oldBasePageTailPos : Option Nat)
    (insertPos currentPageLsn : Nat) : LsnTable Block :=
  let linked := match oldLsnTailPos with
    | none => table
    | some oldTailPos => table.modifyOldTail oldTailPos insertPos
  match oldBasePageTailPos with
  | none => linked
  | some oldTailPos => linked.modifyOldBaseTail oldTailPos insertPos currentPageLsn

def insertBasePageToLsnInfo (block : Block) (basePage : Page)
    (currentPageLsn nextLsn : Nat) : RedoWorker Block Page :=
  let info := worker.blockInfo block
  let (grown, insertPos) := createBasePageInfoNode worker info.lsnInfoList.prev
    info.basePageInfoList.prev block currentPageLsn nextLsn
  let linked := grown.lsnTable.linkOldTails info.lsnInfoList.prev info.basePageInfoList.prev
    insertPos currentPageLsn
  generateBasePage ({ grown with lsnTable := linked }.setBlockInfo block
      { info with
        lsnInfoList := info.lsnInfoList.moveTail insertPos
        basePageInfoList := info.basePageInfoList.moveTail insertPos })
    basePage

end

end OpenGauss.StandbyRead
