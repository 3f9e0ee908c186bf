import OpenGauss.StandbyRead.LsnInserts

namespace OpenGauss.StandbyRead

open Function (update update_of_ne update_self)

universe u v

section

variable {Block : Type u} {Page : Type v}

/-- Every block's info names the ends of its layout, and no cell belongs to two layouts. -/
structure Laid (pageLsn : Page → Nat) (worker : RedoWorker Block Page)
    (layouts : Block → List (PlacedNode Page)) : Prop where
  threaded : ∀ block, Threaded pageLsn worker.lsnTable block .top (layouts block)
  stacked : ∀ block, Stacked worker.metaInfo.lsnTableNextPosition (layouts block)
  apart : ∀ {block other position}, Covers (layouts block) position →
    Covers (layouts other) position → block = other
  tail : ∀ block, (worker.blockInfo block).valid = true →
    (worker.blockInfo block).lsnInfoList.prev = newestPosition (layouts block) ∧
      (worker.blockInfo block).basePageInfoList.prev = newestBase (layouts block)
  invalid : ∀ block, (worker.blockInfo block).valid = false → layouts block = []

theorem le_skipPageHeader (position : Nat) : position ≤ skipPageHeader position := by
  unfold skipPageHeader
  split <;> omega

theorem le_basePosition (position : Nat) : position ≤ skipPageHeader (skipShortRest position) := by
  refine Nat.le_trans ?_ (le_skipPageHeader _)
  unfold skipShortRest
  split <;> omega

/-- The layout of a block after one more record, which gets a node of its own when its page is
saved or the newest node is full. -/
def placeRecord (nextPosition : Nat) (record : Record Page) : List (PlacedNode Page) → List (PlacedNode Page)
  | [] => [⟨skipPageHeader (skipShortRest nextPosition), record, []⟩]
  | top :: older =>
    if record.image.isSome then
      ⟨skipPageHeader (skipShortRest nextPosition), record, []⟩ :: top :: older
    else if top.records.length < lsnNumPerNode then
      { top with rest := top.rest ++ [record] } :: older
    else ⟨skipPageHeader nextPosition, record, []⟩ :: top :: older

@[simp] theorem recordsOf_placeRecord (nextPosition : Nat) (record : Record Page)
    (layout : List (PlacedNode Page)) :
    recordsOf (placeRecord nextPosition record layout) = recordsOf layout ++ [record] := by
  cases layout with
  | nil => rfl
  | cons top older =>
    simp only [placeRecord]
    split
    · simp [PlacedNode.records]
    · split <;> simp [PlacedNode.records]

variable {pageLsn : Page → Nat} {worker : RedoWorker Block Page} {layouts : Block → List (PlacedNode Page)}

theorem covers_cons {node : PlacedNode Page} {layout : List (PlacedNode Page)} {position : Nat} :
    Covers (node :: layout) position ↔ node.covers position ∨ Covers layout position := by
  simp [Covers]

namespace Laid

variable (laid : Laid pageLsn worker layouts)

include laid
variable {block : Block}

theorem lt_next {position : Nat} (covered : Covers (layouts block) position) :
    position < worker.metaInfo.lsnTableNextPosition :=
  (laid.stacked block).lt_of_covers covered

theorem valid_of_nonempty (nonempty : layouts block ≠ []) : (worker.blockInfo block).valid = true := by
  by_contra invalid
  exact nonempty (laid.invalid block (by simpa using invalid))

variable [DecidableEq Block]

/-- A change of the block info that keeps its flag and its list tails. -/
theorem setBlockInfo {info : BlockMetaInfo} (same : info.valid = (worker.blockInfo block).valid)
    (sameLsn : info.lsnInfoList.prev = (worker.blockInfo block).lsnInfoList.prev)
    (sameBase : info.basePageInfoList.prev = (worker.blockInfo block).basePageInfoList.prev) :
    Laid pageLsn (worker.setBlockInfo block info) layouts where
  threaded := laid.threaded
  stacked := laid.stacked
  apart := laid.apart
  tail other valid := by
    by_cases here : other = block
    · subst here
      simp only [RedoWorker.setBlockInfo, update_self] at valid ⊢
      rw [sameLsn, sameBase]
      exact laid.tail other (same ▸ valid)
    · simp only [RedoWorker.setBlockInfo, update_of_ne here] at valid ⊢
      exact laid.tail other valid
  invalid other invalid := by
    by_cases here : other = block
    · subst here
      simp only [RedoWorker.setBlockInfo, update_self] at invalid
      exact laid.invalid other (same ▸ invalid)
    · simp only [RedoWorker.setBlockInfo, update_of_ne here] at invalid
      exact laid.invalid other invalid

/-- `init_block_info` on a block without nodes. -/
theorem initBlockInfo (empty : layouts block = []) (maxLsn : Nat) :
    Laid pageLsn (worker.setBlockInfo block (initBlockInfo maxLsn)) layouts where
  threaded := laid.threaded
  stacked := laid.stacked
  apart := laid.apart
  tail other valid := by
    by_cases here : other = block
    · subst here
      simp [RedoWorker.setBlockInfo, StandbyRead.initBlockInfo, lsnInfoListInit, empty,
        newestPosition, newestBase]
    · simp only [RedoWorker.setBlockInfo, update_of_ne here] at valid ⊢
      exact laid.tail other valid
  invalid other invalid := by
    by_cases here : other = block
    · exact here ▸ empty
    · simp only [RedoWorker.setBlockInfo, update_of_ne here] at invalid
      exact laid.invalid other invalid

/-- How a step that adds nodes to one block, or changes them, keeps the layouts of all blocks. -/
theorem replace {next : RedoWorker Block Page} {layout : List (PlacedNode Page)}
    (more : worker.metaInfo.lsnTableNextPosition ≤ next.metaInfo.lsnTableNextPosition)
    (others : ∀ other, other ≠ block → next.blockInfo other = worker.blockInfo other)
    (elsewhere : ∀ position, ¬ Covers (layouts block) position →
      position < worker.metaInfo.lsnTableNextPosition → next.lsnTable.cell position =
      worker.lsnTable.cell position)
    (threaded : Threaded pageLsn next.lsnTable block .top layout)
    (stacked : Stacked next.metaInfo.lsnTableNextPosition layout)
    (own : ∀ position, Covers layout position → Covers (layouts block) position ∨
      worker.metaInfo.lsnTableNextPosition ≤ position)
    (valid : (next.blockInfo block).valid = true)
    (tail : (next.blockInfo block).lsnInfoList.prev = newestPosition layout)
    (baseTail : (next.blockInfo block).basePageInfoList.prev = newestBase layout) :
    Laid pageLsn next (update layouts block layout) where
  threaded other := by
    by_cases here : other = block
    · subst here
      rwa [update_self]
    · rw [update_of_ne here]
      refine (laid.threaded other).congr ?_
      intro position covered
      refine elsewhere position ?_ (laid.lt_next covered)
      intro both
      exact here (laid.apart covered both)
  stacked other := by
    by_cases here : other = block
    · subst here
      rwa [update_self]
    · rw [update_of_ne here]
      exact (laid.stacked other).mono more
  apart := by
    have fresh : ∀ {other position}, other ≠ block → Covers (layouts other) position →
        ¬ Covers layout position := by
      intro other position here covered both
      rcases own position both with old | new
      · exact here (laid.apart covered old)
      · exact absurd (laid.lt_next covered) (by omega)
    intro first second position left right
    by_cases here : first = block <;> by_cases there : second = block
    · rw [here, there]
    · rw [here, update_self] at left
      rw [update_of_ne there] at right
      exact absurd left (fresh there right)
    · rw [update_of_ne here] at left
      rw [there, update_self] at right
      exact absurd right (fresh here left)
    · rw [update_of_ne here] at left
      rw [update_of_ne there] at right
      exact laid.apart left right
  tail other valid' := by
    by_cases here : other = block
    · subst here
      rw [update_self]
      exact ⟨tail, baseTail⟩
    · rw [others other here] at valid' ⊢
      rw [update_of_ne here]
      exact laid.tail other valid'
  invalid other invalid := by
    by_cases here : other = block
    · subst here
      rw [valid] at invalid
      cases invalid
    · rw [others other here] at invalid
      rw [update_of_ne here]
      exact laid.invalid other invalid

/-- `insert_base_page_to_lsn_info` puts a base page node on top of the block's layout. -/
theorem insertBasePage (valid : (worker.blockInfo block).valid = true) (page : Page) (lsn : Nat) :
    Laid pageLsn (insertBasePageToLsnInfo worker block page (pageLsn page) lsn)
      (update layouts block (⟨skipPageHeader (skipShortRest worker.metaInfo.lsnTableNextPosition),
          ⟨page, lsn, some worker.metaInfo.basePageNextPosition⟩, []⟩ :: layouts block)) := by
  obtain ⟨tail, baseTail⟩ := laid.tail block valid
  have above := le_basePosition worker.metaInfo.lsnTableNextPosition
  set insertPos := skipPageHeader (skipShortRest worker.metaInfo.lsnTableNextPosition) with place
  have written : ∀ position, position < worker.metaInfo.lsnTableNextPosition →
      (createBasePageInfoNode worker (newestPosition (layouts block)) (newestBase (layouts block))
        block (pageLsn page) lsn).1.lsnTable.cell position = worker.lsnTable.cell position := by
    intro position before
    simp only [createBasePageInfoNode, ← place, LsnTable.setBasePageMapBit, setCell_cell]
    rw [update_of_ne (by unfold lsnInfoNodeSize; omega), update_of_ne (by omega)]
  have free : ∀ position, insertPos ≤ position → ¬ Covers (layouts block) position := by
    intro position after covered
    have := laid.lt_next covered
    omega
  apply laid.replace
  · simp only [insertBasePageToLsnInfo, createBasePageInfoNode, generateBasePage,
      RedoWorker.setBlockInfo, ← place]
    omega
  · intro other here
    simp [insertBasePageToLsnInfo, createBasePageInfoNode, generateBasePage, RedoWorker.setBlockInfo, here]
  · intro position outside before
    simp only [insertBasePageToLsnInfo, generateBasePage, RedoWorker.setBlockInfo, tail, baseTail]
    exact (linkOldTails_cell outside _ _).trans (written position before)
  · refine ⟨⟨⟨true, ?_⟩, ?_⟩, ?_⟩
    · simp only [insertBasePageToLsnInfo, generateBasePage, RedoWorker.setBlockInfo, tail, baseTail]
      rw [linkOldTails_cell (free _ le_rfl)]
      simp only [createBasePageInfoNode, ← place, LsnTable.setBasePageMapBit, setCell_cell]
      rw [update_of_ne (by simp [lsnInfoNodeSize]), update_self]
      rfl
    · intro image saved
      obtain rfl := Option.some.inj saved
      simp only [insertBasePageToLsnInfo, generateBasePage, RedoWorker.setBlockInfo, tail, baseTail]
      rw [linkOldTails_cell (free _ (Nat.le_add_right _ _))]
      simp only [createBasePageInfoNode, ← place, LsnTable.setBasePageMapBit, setCell_cell]
      rw [update_self]
      rfl
    · simp only [insertBasePageToLsnInfo, generateBasePage, RedoWorker.setBlockInfo, tail, baseTail]
      refine Threaded.linkOldTails ?_ (laid.stacked block) _ _
      exact (laid.threaded block).congr fun position covered => written position (laid.lt_next covered)
  · refine ⟨le_rfl, ?_⟩
    exact (laid.stacked block).mono above
  · intro position covered
    rcases covers_cons.mp covered with new | old
    · exact Or.inr (above.trans (PlacedNode.le_of_covers new))
    · exact Or.inl old
  · simpa [insertBasePageToLsnInfo, createBasePageInfoNode, generateBasePage,
      RedoWorker.setBlockInfo] using valid
  · simp [insertBasePageToLsnInfo, createBasePageInfoNode, generateBasePage,
      RedoWorker.setBlockInfo, LsnInfoDoubleList.moveTail, newestPosition, place]
  · simp [insertBasePageToLsnInfo, createBasePageInfoNode, generateBasePage,
      RedoWorker.setBlockInfo, LsnInfoDoubleList.moveTail, newestBase, PlacedNode.isBase, place]

/-- `insert_lsn_to_lsn_info` adds the LSN to the newest node, or a node of its own. -/
theorem insertLsn (valid : (worker.blockInfo block).valid = true) (nonempty : layouts block ≠ [])
    (page : Page) (lsn : Nat) :
    Laid pageLsn (insertLsnToLsnInfo worker block lsn) (update layouts block
        (placeRecord worker.metaInfo.lsnTableNextPosition ⟨page, lsn, none⟩ (layouts block))) := by
  obtain ⟨tail, baseTail⟩ := laid.tail block valid
  obtain ⟨top, older, layout⟩ := List.exists_cons_of_ne_nil nonempty
  have stacked := laid.stacked block
  have threaded := laid.threaded block
  rw [layout] at tail baseTail stacked threaded
  obtain ⟨flag, cell⟩ := threaded.1.lsnInfo
  have here : worker.lsnTable.lsnInfo? top.position = some
      { lsnList := ⟨newestPosition older, none⟩, valid := flag, type := top.type,
        lsn := top.records.map (·.lsn) } := by
    simp [LsnTable.lsnInfo?, cell, Above.top]
  have tailHere : (worker.blockInfo block).lsnInfoList.prev = some top.position := tail
  rw [layout]
  unfold insertLsnToLsnInfo placeRecord
  simp only [tailHere, here, List.length_map, Option.isSome_none, Bool.false_eq_true, if_false]
  by_cases room : top.records.length < lsnNumPerNode
  · simp only [room, if_true]
    apply laid.replace
    · exact le_rfl
    · exact fun other _ => rfl
    · intro position outside before
      apply modifyLsnInfo_cell_of_ne
      rintro rfl
      exact outside (layout ▸ ⟨top, by simp, Or.inl rfl⟩)
    · exact threaded.addLsn stacked ⟨page, lsn, none⟩
    · exact stacked
    · intro position covered
      rw [layout]
      refine Or.inl (covers_cons.mpr ?_)
      rcases covers_cons.mp covered with own | old
      · exact Or.inl own
      · exact Or.inr old
    · exact valid
    · exact tail
    · exact baseTail
  · simp only [room, if_false]
    have above := le_skipPageHeader worker.metaInfo.lsnTableNextPosition
    set insertPos := skipPageHeader worker.metaInfo.lsnTableNextPosition with place
    have inside : Covers (layouts block) top.position := layout ▸ ⟨top, by simp, Or.inl rfl⟩
    have before := laid.lt_next inside
    have written : ∀ position, position < worker.metaInfo.lsnTableNextPosition →
        (createLsnInfoNode worker top.position lsn).1.lsnTable.cell position =
          worker.lsnTable.cell position := by
      intro position before
      simp only [createLsnInfoNode, ← place, setCell_cell]
      rw [update_of_ne (by omega)]
    apply laid.replace
    · simp only [createLsnInfoNode, RedoWorker.setBlockInfo, ← place]
      omega
    · intro other different
      simp [createLsnInfoNode, RedoWorker.setBlockInfo, different]
    · intro position outside before
      refine Eq.trans ?_ (written position before)
      apply modifyLsnInfo_cell_of_ne
      rintro rfl
      exact outside inside
    · refine ⟨⟨⟨true, ?_⟩, nofun⟩, ?_⟩
      · refine (modifyLsnInfo_cell_of_ne (show insertPos ≠ top.position by omega) _).trans ?_
        simp only [createLsnInfoNode, ← place, setCell_cell, update_self]
        rfl
      · refine Threaded.linkNext (Threaded.congr threaded ?_) stacked insertPos
        intro position covered
        exact written position (laid.lt_next (layout ▸ covered))
    · refine ⟨le_rfl, ?_⟩
      exact stacked.mono above
    · intro position covered
      rw [layout]
      rcases covers_cons.mp covered with new | old
      · exact Or.inr (above.trans (PlacedNode.le_of_covers new))
      · exact Or.inl old
    · simpa [RedoWorker.setBlockInfo] using valid
    · simp [createLsnInfoNode, RedoWorker.setBlockInfo, newestPosition, place]
    · simpa [RedoWorker.setBlockInfo, newestBase, PlacedNode.isBase] using baseTail

end Laid

@[simp] theorem placeRecord_image (nextPosition image : Nat) (page : Page) (lsn : Nat)
    (layout : List (PlacedNode Page)) :
    placeRecord nextPosition ⟨page, lsn, some image⟩ layout =
      ⟨skipPageHeader (skipShortRest nextPosition), ⟨page, lsn, some image⟩, []⟩ :: layout := by
  cases layout <;> rfl

/-- Where `insert_lsn_to_block_info` saves the page, if it does. -/
def imageFor (config : StandbyReadConfig Page) (worker : RedoWorker Block Page) (block : Block) :
    Option Nat :=
  let info := worker.blockInfo block
  if info.valid = true ∧ info.recordNum ≠ 0 ∧ info.recordNum % config.basePageSavedInterval ≠ 0 then
    none
  else some worker.metaInfo.basePageNextPosition

variable [DecidableEq Block]

theorem setBlockInfo_blockInfo (worker : RedoWorker Block Page) (block : Block)
    (info : BlockMetaInfo) : (worker.setBlockInfo block info).blockInfo block = info := by
  simp [RedoWorker.setBlockInfo]

/-- The block info as the insertion finds it or starts it. -/
def startedInfo (pageLsn : Page → Nat) (worker : RedoWorker Block Page) (block : Block)
    (page : Page) : RedoWorker Block Page :=
  if (worker.blockInfo block).valid then worker
  else worker.setBlockInfo block (initBlockInfo (pageLsn page))

/-- What both insertions come to, with or without saving the page. -/
def fileRecord (pageLsn : Page → Nat) (worker : RedoWorker Block Page) (block : Block) (page : Page)
    (lsn : Nat) : Option Nat → RedoWorker Block Page
  | some _ =>
    countRecord (insertBasePageToLsnInfo (startedInfo pageLsn worker block page) block page
      (pageLsn page) lsn) block lsn
  | none => countRecord (insertLsnToLsnInfo worker block lsn) block lsn

/-- An image is the next free place for a saved page, and only a block with nodes does without. -/
structure ImageFits (worker : RedoWorker Block Page) (block : Block) (image : Option Nat) : Prop where
  saved : ∀ place, image = some place → place = worker.metaInfo.basePageNextPosition
  unsaved : image = none → (worker.blockInfo block).valid = true

omit [DecidableEq Block] in
theorem imageFor_fits (config : StandbyReadConfig Page) (worker : RedoWorker Block Page)
    (block : Block) : ImageFits worker block (imageFor config worker block) := by
  unfold imageFor
  dsimp only
  split
  · rename_i unsaved
    exact ⟨nofun, fun _ => unsaved.1⟩
  · exact ⟨fun place here => (Option.some.inj here).symm, nofun⟩

theorem insertLsnToBlockInfo_eq (config : StandbyReadConfig Page) (worker : RedoWorker Block Page)
    (block : Block) (page : Page) (lsn : Nat) :
    insertLsnToBlockInfo config worker block page lsn =
      fileRecord config.pageLsn worker block page lsn (imageFor config worker block) := by
  unfold insertLsnToBlockInfo imageFor fileRecord startedInfo
  by_cases valid : (worker.blockInfo block).valid
  · by_cases zero : (worker.blockInfo block).recordNum = 0
    · simp [valid, zero]
    · by_cases whole : (worker.blockInfo block).recordNum % config.basePageSavedInterval = 0 <;>
        simp [valid, zero, whole]
  · simp [valid, setBlockInfo_blockInfo, initBlockInfo]

theorem Laid.countRecord {block : Block} (laid : Laid pageLsn worker layouts) (lsn : Nat) :
    Laid pageLsn (countRecord worker block lsn) layouts :=
  laid.setBlockInfo rfl rfl rfl

theorem Laid.startedInfo (laid : Laid pageLsn worker layouts) (block : Block) (page : Page) :
    Laid pageLsn (startedInfo pageLsn worker block page) layouts := by
  unfold StandbyRead.startedInfo
  split
  · exact laid
  · rename_i invalid
    exact laid.initBlockInfo (laid.invalid block (by simpa using invalid)) _

theorem startedInfo_valid (worker : RedoWorker Block Page) (block : Block) (page : Page) :
    ((startedInfo pageLsn worker block page).blockInfo block).valid = true := by
  unfold startedInfo
  split
  · assumption
  · rw [setBlockInfo_blockInfo]
    rfl

@[simp] theorem startedInfo_metaInfo (worker : RedoWorker Block Page) (block : Block)
    (page : Page) : (startedInfo pageLsn worker block page).metaInfo = worker.metaInfo := by
  unfold startedInfo
  split <;> rfl

theorem Laid.fileRecord (laid : Laid pageLsn worker layouts) {block : Block} {image : Option Nat}
    (fits : ImageFits worker block image)
    (nonempty : (worker.blockInfo block).valid = true → layouts block ≠ []) (page : Page)
    (lsn : Nat) :
    Laid pageLsn (fileRecord pageLsn worker block page lsn image)
      (update layouts block (placeRecord worker.metaInfo.lsnTableNextPosition
        ⟨page, lsn, image⟩ (layouts block))) := by
  cases image with
  | none =>
    have valid := fits.unsaved rfl
    exact (laid.insertLsn valid (nonempty valid) page lsn).countRecord lsn
  | some place =>
    obtain rfl := fits.saved place rfl
    have placed := (laid.startedInfo block page).insertBasePage
      (startedInfo_valid worker block page) page lsn
    rw [placeRecord_image]
    rw [startedInfo_metaInfo] at placed
    exact placed.countRecord lsn

end

end OpenGauss.StandbyRead
