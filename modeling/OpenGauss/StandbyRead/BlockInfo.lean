import OpenGauss.StandbyRead.LsnInfo

/-! Recording a replayed WAL record in its block's info before it is replayed, and finding an old
version of a block. -/

namespace OpenGauss.StandbyRead

universe u v

/-- `base_page_saved_interval`, and `PageGetLSN`. -/
structure StandbyReadConfig (Page : Type v) where
  basePageSavedInterval : Nat
  intervalPositive : 0 < basePageSavedInterval
  pageLsn : Page → Nat

def BlockMetaInfo.unused : BlockMetaInfo :=
  { valid := false, recordNum := 0, minLsn := 0, maxLsn := 0,
    lsnInfoList := ⟨none, none⟩, basePageInfoList := ⟨none, none⟩ }

def RedoWorker.initial (Block : Type u) (Page : Type v) : RedoWorker Block Page :=
  { metaInfo := ⟨0, 0, 0, 0, 0⟩
    blockInfo := fun _ => .unused
    lsnTable := { cell := fun _ => .unused, basePageMap := fun _ => false }
    basePages := fun _ => none }

def initBlockInfo (maxLsn : Nat) : BlockMetaInfo :=
  { valid := true, recordNum := 0, minLsn := maxLsn, maxLsn := maxLsn,
    lsnInfoList := lsnInfoListInit, basePageInfoList := lsnInfoListInit }

section

variable {Block : Type u} {Page : Type v} [DecidableEq Block] (config : StandbyReadConfig Page)

variable (worker : RedoWorker Block Page)

/-- The end of both insertions: the record is counted, in 32 bits, and its LSN kept. -/
def countRecord (block : Block) (nextLsn : Nat) : RedoWorker Block Page :=
  let info := worker.blockInfo block
  worker.setBlockInfo block { info with recordNum := (info.recordNum + 1) % 2 ^ 32, maxLsn := nextLsn }

def insertLsnToBlockInfo (block : Block) (basePage : Page)
    (nextLsn : Nat) : RedoWorker Block Page :=
  let currentPageLsn := config.pageLsn basePage
  let worker :=
    if (worker.blockInfo block).valid then worker
    else worker.setBlockInfo block (initBlockInfo currentPageLsn)
  let recordNum := (worker.blockInfo block).recordNum
  let worker :=
    if recordNum = 0 ∨ recordNum % config.basePageSavedInterval = 0 then
      insertBasePageToLsnInfo worker block basePage currentPageLsn nextLsn
    else insertLsnToLsnInfo worker block nextLsn
  countRecord worker block nextLsn

/-- `StandbyReadLsnInfoArray`: a saved page and the records to replay on it. -/
structure LsnInfoArray where
  basePagePos : Nat
  basePageLsn : Nat
  lsnArray : List Nat
  deriving DecidableEq, Repr

/-- What `get_page_lsn_info` ends with; `tooOld` is the error that no old version can be found, and
`failed` stands for its other errors. -/
inductive ReadAnswer where
  | noBlockInfo
  | tooOld
  | failed
  | found (info : LsnInfoArray)
  deriving DecidableEq, Repr

omit [DecidableEq Block] in
/-- The first loop of `get_lsn_info_for_read`: from tail to head to a page not newer than the read
LSN. `fuel` bounds the number of nodes. -/
def findBasePage (table : LsnTable Block) (readLsn : Nat) :
    Nat → Option Nat → Option (Nat × BasePagePart Block)
  | 0, _ => none
  | _, none => none
  | fuel + 1, some position =>
    match table.basePagePart? position with
    | none => none
    | some part =>
      if part.curPageLsn ≤ readLsn then some (position, part)
      else findBasePage table readLsn fuel part.basePageList.prev

omit [DecidableEq Block] in
/-- The second loop of `get_lsn_info_for_read`: the LSNs below the read LSN, up to the first that
is not. -/
def collectLsns (table : LsnTable Block) (readLsn : Nat) : Nat → Nat → Option (List Nat)
  | 0, _ => none
  | fuel + 1, position =>
    match table.lsnInfo? position with
    | none => none
    | some node =>
      let taken := node.lsn.takeWhile (· < readLsn)
      if node.lsn.any (readLsn ≤ ·) then some taken
      else
        match node.lsnList.next with
        | none => some taken
        | some next => (collectLsns table readLsn fuel next).map (taken ++ ·)

omit [DecidableEq Block] in
def getLsnInfoForRead (latestPos : Option Nat) (readLsn : Nat) :
    ReadAnswer :=
  let fuel := worker.metaInfo.lsnTableNextPosition
  match findBasePage worker.lsnTable readLsn fuel latestPos with
  | none => .failed
  | some (position, part) =>
    match collectLsns worker.lsnTable readLsn fuel position with
    | none => .failed
    | some lsnArray => .found ⟨part.basePagePosition, part.curPageLsn, lsnArray⟩

omit [DecidableEq Block] in
def getPageLsnInfo (block : Block) (readLsn : Nat) : ReadAnswer :=
  let info := worker.blockInfo block
  if ¬ info.valid then .noBlockInfo
  else if readLsn < info.minLsn then .tooOld
  else getLsnInfoForRead worker info.basePageInfoList.prev readLsn

end

/-- One recorded WAL record: the block's page before it, and where that page was saved, if so. -/
structure Record (Page : Type v) where
  page : Page
  lsn : Nat
  image : Option Nat

structure PlacedNode (Page : Type v) where
  position : Nat
  first : Record Page
  rest : List (Record Page)

namespace PlacedNode

variable {Page : Type v} (node : PlacedNode Page)

def records : List (Record Page) := node.first :: node.rest

def isBase : Bool := node.first.image.isSome

def type : LsnInfoType := if node.isBase then .basePage else .lsns

def limit : Nat :=
  node.position + if node.isBase then basePageInfoNodeSize else lsnInfoNodeSize

end PlacedNode

section

variable {Block : Type u} {Page : Type v}

def recordsOf : List (PlacedNode Page) → List (Record Page)
  | [] => []
  | node :: older => recordsOf older ++ node.records

@[simp] theorem recordsOf_nil : recordsOf ([] : List (PlacedNode Page)) = [] := rfl

@[simp] theorem recordsOf_cons (node : PlacedNode Page) (older : List (PlacedNode Page)) :
    recordsOf (node :: older) = recordsOf older ++ node.records := rfl

@[simp] theorem recordsOf_append (newer older : List (PlacedNode Page)) :
    recordsOf (newer ++ older) = recordsOf older ++ recordsOf newer := by
  induction newer with
  | nil => simp
  | cons node rest ih => simp [ih]

def newestBase : List (PlacedNode Page) → Option Nat
  | [] => none
  | node :: older => if node.isBase then some node.position else newestBase older

def newestPosition (layout : List (PlacedNode Page)) : Option Nat :=
  layout.head?.map (·.position)

/-- What the nodes above a node make of its forward links. -/
structure Above where
  next : Option Nat
  nextBase : Option Nat
  nextBaseLsn : Nat

def Above.top : Above := ⟨none, none, 0⟩

variable (pageLsn : Page → Nat)

def Above.below (above : Above) (node : PlacedNode Page) : Above :=
  if node.isBase then ⟨some node.position, some node.position, pageLsn node.first.page⟩
  else { above with next := some node.position }

structure NodeAt (table : LsnTable Block) (block : Block) (above : Above) (node : PlacedNode Page)
    (older : List (PlacedNode Page)) : Prop where
  lsnInfo : ∃ valid, table.cell node.position = .lsnInfo
    { lsnList := ⟨newestPosition older, above.next⟩, valid, type := node.type,
      lsn := node.records.map (·.lsn) }
  basePage : ∀ image, node.first.image = some image →
    table.cell (node.position + lsnInfoNodeSize) = .basePage
      { basePageList := ⟨newestBase older, above.nextBase⟩, curPageLsn := pageLsn node.first.page,
        block, nextBasePageLsn := above.nextBaseLsn, basePagePosition := image }

/-- The file holds all nodes of a layout, with their links. -/
def Threaded (table : LsnTable Block) (block : Block) : Above → List (PlacedNode Page) → Prop
  | _, [] => True
  | above, node :: older =>
    NodeAt pageLsn table block above node older ∧ Threaded table block (above.below pageLsn node) older

variable {pageLsn} {table changed : LsnTable Block} {block : Block}

def PlacedNode.covers (node : PlacedNode Page) (position : Nat) : Prop :=
  position = node.position ∨ node.isBase ∧ position = node.position + lsnInfoNodeSize

def Covers (layout : List (PlacedNode Page)) (position : Nat) : Prop :=
  ∃ node ∈ layout, node.covers position

variable {layout : List (PlacedNode Page)} {position : Nat} {above : Above} {node : PlacedNode Page}

/-- The newest base page node is one of the layout's nodes. -/
theorem mem_newestBase (newest : newestBase layout = some position) :
    ∃ node ∈ layout, node.isBase ∧ node.position = position := by
  induction layout with
  | nil => cases newest
  | cons node older ih =>
    by_cases base : node.isBase
    · exact ⟨node, by simp, base, by simpa [newestBase, base] using newest⟩
    · obtain ⟨other, member, found⟩ := ih (by simpa [newestBase, base] using newest)
      exact ⟨other, by simp [member], found⟩

theorem covers_newestBase (newest : newestBase layout = some position) :
    Covers layout position ∧ Covers layout (position + lsnInfoNodeSize) := by
  obtain ⟨node, member, base, rfl⟩ := mem_newestBase newest
  exact ⟨⟨node, member, Or.inl rfl⟩, ⟨node, member, Or.inr ⟨base, rfl⟩⟩⟩

theorem NodeAt.congr {older : List (PlacedNode Page)} (at' : NodeAt pageLsn table block above node older)
    (same : ∀ position, node.covers position → changed.cell position = table.cell position) :
    NodeAt pageLsn changed block above node older where
  lsnInfo := by
    rw [same _ (Or.inl rfl)]
    exact at'.lsnInfo
  basePage image here := by
    rw [same _ (Or.inr ⟨by simp [PlacedNode.isBase, here], rfl⟩)]
    exact at'.basePage image here

theorem Threaded.congr (threaded : Threaded pageLsn table block above layout)
    (same : ∀ position, Covers layout position → changed.cell position = table.cell position) :
    Threaded pageLsn changed block above layout := by
  induction layout generalizing above with
  | nil => trivial
  | cons node older ih =>
    obtain ⟨here, below⟩ := threaded
    refine ⟨here.congr fun position covered => same position ⟨node, by simp, covered⟩, ?_⟩
    refine ih below ?_
    rintro position ⟨other, member, covered⟩
    exact same position ⟨other, by simp [member], covered⟩

/-- Nodes lie above each other without overlap, each within one page, up to the next free
position. -/
def Stacked : Nat → List (PlacedNode Page) → Prop
  | _, [] => True
  | limit, node :: older => node.limit ≤ limit ∧ Stacked node.position older

theorem Stacked.mono {limit higher : Nat} (stacked : Stacked limit layout) (more : limit ≤ higher) :
    Stacked higher layout := by
  cases layout with
  | nil => trivial
  | cons node older => exact ⟨stacked.1.trans more, stacked.2⟩

theorem PlacedNode.position_lt_limit (node : PlacedNode Page) : node.position < node.limit := by
  unfold PlacedNode.limit basePageInfoNodeSize lsnInfoNodeSize
  split <;> omega

theorem PlacedNode.lt_limit_of_covers (covered : node.covers position) : position < node.limit := by
  unfold PlacedNode.limit basePageInfoNodeSize
  rcases covered with rfl | ⟨base, rfl⟩
  · split <;> simp [lsnInfoNodeSize]
  · simp [base, lsnInfoNodeSize]

theorem PlacedNode.le_of_covers (covered : node.covers position) : node.position ≤ position := by
  rcases covered with rfl | ⟨-, rfl⟩ <;> omega

theorem Stacked.lt_of_covers {limit position : Nat} (stacked : Stacked limit layout)
    (covered : Covers layout position) : position < limit := by
  induction layout generalizing limit with
  | nil => obtain ⟨node, member, -⟩ := covered; cases member
  | cons node older ih =>
    obtain ⟨other, member, covered⟩ := covered
    rcases List.mem_cons.mp member with rfl | member
    · exact (PlacedNode.lt_limit_of_covers covered).trans_le stacked.1
    · exact (ih stacked.2 ⟨other, member, covered⟩).trans (node.position_lt_limit.trans_le stacked.1)

theorem Stacked.length_le {limit : Nat} (stacked : Stacked limit layout) : layout.length ≤ limit := by
  induction layout generalizing limit with
  | nil => simp
  | cons node older ih =>
    have := ih stacked.2
    have := node.position_lt_limit
    have := stacked.1
    simp only [List.length_cons]
    omega

end

end OpenGauss.StandbyRead
