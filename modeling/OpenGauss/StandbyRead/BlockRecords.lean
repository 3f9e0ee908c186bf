import OpenGauss.StandbyRead.PageVersions

namespace OpenGauss.StandbyRead

open Lib

universe u v

section

variable {Block : Type u} {Page : Type v} [DecidableEq Block] {worker : RedoWorker Block Page}

omit [DecidableEq Block] in
/-- Where the page was saved that a step has put into the base page file, if it has. -/
def savedImage (before after : RedoWorker Block Page) : Option Nat :=
  if after.metaInfo.basePageNextPosition = before.metaInfo.basePageNextPosition then none
  else some before.metaInfo.basePageNextPosition

/-- What an insertion does to the worker apart from the LSN info file. -/
structure Inserted (config : StandbyReadConfig Page) (worker next : RedoWorker Block Page)
    (block : Block) (page : Page) (lsn : Nat) (image : Option Nat) : Prop where
  basePages : next.basePages = match image with
    | none => worker.basePages
    | some place => Function.update worker.basePages place (some page)
  basePageNext : next.metaInfo.basePageNextPosition = match image with
    | none => worker.metaInfo.basePageNextPosition
    | some _ => worker.metaInfo.basePageNextPosition + blcksz
  recylePositions : next.metaInfo.lsnTableRecylePosition = worker.metaInfo.lsnTableRecylePosition ∧
    next.metaInfo.basePageRecylePosition = worker.metaInfo.basePageRecylePosition
  others : ∀ other, other ≠ block → next.blockInfo other = worker.blockInfo other
  valid : (next.blockInfo block).valid = true
  maxLsn : (next.blockInfo block).maxLsn = lsn
  minLsn : (next.blockInfo block).minLsn =
    if (worker.blockInfo block).valid then (worker.blockInfo block).minLsn else config.pageLsn page
  recordNum : (next.blockInfo block).recordNum =
    ((if (worker.blockInfo block).valid then (worker.blockInfo block).recordNum else 0) + 1) % 2 ^ 32

theorem insertLsnToLsnInfo_frame (worker : RedoWorker Block Page) (block : Block) (lsn : Nat) :
    ∃ table position prev, insertLsnToLsnInfo worker block lsn =
      { worker with
        lsnTable := table
        metaInfo := { worker.metaInfo with lsnTableNextPosition := position }
        blockInfo := Function.update worker.blockInfo block
          { worker.blockInfo block with
            lsnInfoList := { (worker.blockInfo block).lsnInfoList with prev } } } := by
  have same : worker.blockInfo = Function.update worker.blockInfo block
      { worker.blockInfo block with
        lsnInfoList :=
          { (worker.blockInfo block).lsnInfoList with
            prev := (worker.blockInfo block).lsnInfoList.prev } } :=
    (Function.update_eq_self block worker.blockInfo).symm
  unfold insertLsnToLsnInfo
  dsimp only
  split
  · exact ⟨worker.lsnTable, worker.metaInfo.lsnTableNextPosition, _, by rw [← same]⟩
  · split
    · exact ⟨worker.lsnTable, worker.metaInfo.lsnTableNextPosition, _, by rw [← same]⟩
    · split
      · exact ⟨_, worker.metaInfo.lsnTableNextPosition, _, by rw [← same]⟩
      · exact ⟨_, _, _, rfl⟩

theorem startedInfo_blockInfo (pageLsn : Page → Nat) (worker : RedoWorker Block Page)
    (block : Block) (page : Page) :
    (startedInfo pageLsn worker block page).blockInfo = Function.update worker.blockInfo block
      (if (worker.blockInfo block).valid then worker.blockInfo block
        else initBlockInfo (pageLsn page)) := by
  unfold startedInfo
  split
  · exact (Function.update_eq_self block worker.blockInfo).symm
  · rfl

theorem fileRecord_inserted (config : StandbyReadConfig Page) {block : Block} {image : Option Nat}
    (fits : ImageFits worker block image) (page : Page) (lsn : Nat) :
    Inserted config worker (fileRecord config.pageLsn worker block page lsn image) block page lsn
      image := by
  cases image with
  | none =>
    have valid := fits.unsaved rfl
    obtain ⟨table, position, prev, shape⟩ := insertLsnToLsnInfo_frame worker block lsn
    simp only [fileRecord, shape]
    constructor <;> simp +contextual [countRecord, RedoWorker.setBlockInfo, valid]
  | some place =>
    obtain rfl := fits.saved place rfl
    have started := startedInfo_blockInfo config.pageLsn worker block page
    have pages : (startedInfo config.pageLsn worker block page).basePages = worker.basePages := by
      unfold startedInfo
      split <;> rfl
    simp only [fileRecord]
    constructor <;> simp +contextual [countRecord, RedoWorker.setBlockInfo, insertBasePageToLsnInfo,
        generateBasePage, createBasePageInfoNode, pages, started]
    all_goals by_cases valid : (worker.blockInfo block).valid = true <;> simp [valid, initBlockInfo]

omit [DecidableEq Block] in
theorem Inserted.image_eq {config : StandbyReadConfig Page} {next : RedoWorker Block Page}
    {block : Block} {page : Page} {lsn : Nat} {image : Option Nat}
    (fits : ImageFits worker block image)
    (inserted : Inserted config worker next block page lsn image) :
    savedImage worker next = image := by
  have moved := inserted.basePageNext
  cases image with
  | none => simp [savedImage, moved]
  | some place =>
    obtain rfl := fits.saved place rfl
    simp [savedImage, moved, blcksz]

/-- The record counter of a block counts the records since its last saved page. -/
structure Counted (config : StandbyReadConfig Page) (info : BlockMetaInfo)
    (records : List (Record Page)) : Prop where
  small : info.recordNum < 2 ^ 32
  trailing : info.recordNum % config.basePageSavedInterval ≠ 0 → ∀ run, run <:+ records →
    (∀ record ∈ run, record.image = none) → run.length < info.recordNum % config.basePageSavedInterval
  spaced : config.log.Spaced config.basePageSavedInterval records

theorem suffix_concat {Item : Type*} {items run : List Item} {item : Item}
    (suffix : run <:+ items ++ [item]) :
    run = [] ∨ ∃ shorter, run = shorter ++ [item] ∧ shorter <:+ items := by
  simpa [eq_comm, and_comm] using List.suffix_concat_iff.mp suffix

theorem mod_succ {count interval : Nat} (positive : 0 < interval)
    (offset : (count + 1) % interval ≠ 0) : (count + 1) % interval = count % interval + 1 := by
  have split := Nat.div_add_mod count interval
  have room := Nat.mod_lt count positive
  have next : (count + 1) % interval = (count % interval + 1) % interval := by
    conv_lhs => rw [← split, Nat.add_assoc, Nat.mul_add_mod]
  rw [next] at offset ⊢
  apply Nat.mod_eq_of_lt
  by_contra full
  have whole : count % interval + 1 = interval := by omega
  simp [whole] at offset

omit [DecidableEq Block] in
theorem counted_insert {config : StandbyReadConfig Page} {block : Block} {info : BlockMetaInfo}
    {records : List (Record Page)} {page : Page} {lsn : Nat}
    (counted : (worker.blockInfo block).valid = true → Counted config (worker.blockInfo block) records)
    (fresh : (worker.blockInfo block).valid = false → records = [])
    (recordNum : info.recordNum =
      ((if (worker.blockInfo block).valid then (worker.blockInfo block).recordNum else 0) + 1)
        % 2 ^ 32) :
    Counted config info (records ++ [⟨page, lsn, imageFor config worker block⟩]) := by
  have positive := config.intervalPositive
  have small : info.recordNum < 2 ^ 32 := recordNum ▸ Nat.mod_lt _ (by decide)
  cases saves : imageFor config worker block with
  | some image =>
    have ending : ∀ run, run <:+ records ++ [⟨page, lsn, some image⟩] →
        (∀ record ∈ run, record.image = none) → run = [] := by
      intro run suffix unsaved
      rcases suffix_concat suffix with empty | ⟨shorter, rfl, -⟩
      · exact empty
      · simpa using unsaved _ (List.mem_append_right _ (List.mem_singleton_self _))
    refine ⟨small, ?_, ?_⟩
    · intro offset run suffix unsaved
      rw [ending run suffix unsaved]
      exact Nat.pos_of_ne_zero offset
    · intro run inside unsaved
      rcases List.infix_concat_iff.mp inside with suffix | inside
      · rw [ending run suffix unsaved]
        exact positive
      · by_cases valid : (worker.blockInfo block).valid = true
        · exact (counted valid).spaced run inside unsaved
        · rw [fresh (by simpa using valid)] at inside
          simpa [List.infix_nil.mp inside] using positive
  | none =>
    obtain ⟨valid, -, offset⟩ : (worker.blockInfo block).valid = true ∧
        (worker.blockInfo block).recordNum ≠ 0 ∧
        (worker.blockInfo block).recordNum % config.basePageSavedInterval ≠ 0 := by
      by_contra saved
      simp only [imageFor] at saves
      rw [if_neg saved] at saves
      cases saves
    have before := counted valid
    have room := Nat.mod_lt (worker.blockInfo block).recordNum positive
    have longer : ∀ run, run <:+ records ++ [⟨page, lsn, none⟩] → (∀ record ∈ run, record.image = none) →
        run.length < (worker.blockInfo block).recordNum % config.basePageSavedInterval + 1 := by
      intro run suffix unsaved
      rcases suffix_concat suffix with rfl | ⟨shorter, rfl, earlier⟩
      · simp
      · have := before.trailing offset shorter earlier
          (fun record member => unsaved record (List.mem_append_left _ member))
        simpa using this
    refine ⟨small, ?_, ?_⟩
    · intro newOffset run suffix unsaved
      rw [if_pos valid] at recordNum
      rw [recordNum] at newOffset ⊢
      have bound := before.small
      rcases Nat.lt_or_ge ((worker.blockInfo block).recordNum + 1) (2 ^ 32) with inRange | wrapped
      · rw [Nat.mod_eq_of_lt inRange] at newOffset ⊢
        rw [mod_succ positive newOffset]
        exact longer run suffix unsaved
      · have zero : (worker.blockInfo block).recordNum + 1 = 2 ^ 32 := by omega
        rw [zero] at newOffset
        simp at newOffset
    · intro run inside unsaved
      rcases List.infix_concat_iff.mp inside with suffix | inside
      · have := longer run suffix unsaved
        omega
      · exact before.spaced run inside unsaved

/-- A new record at the top leaves the oldest node of a layout where it is. -/
theorem placeRecord_oldest (nextPosition : Nat) (record : Record Page) {last : PlacedNode Page}
    (newer : List (PlacedNode Page)) (base : last.isBase) :
    ∃ above bottom, placeRecord nextPosition record (newer ++ [last]) = above ++ [bottom] ∧
      bottom.isBase ∧ bottom.first = last.first ∧ bottom.position = last.position := by
  cases newer with
  | nil =>
    simp only [List.nil_append, placeRecord]
    split
    · exact ⟨[_], last, rfl, base, rfl, rfl⟩
    · split
      · exact ⟨[], { last with rest := last.rest ++ [record] }, rfl, base, rfl, rfl⟩
      · exact ⟨[_], last, rfl, base, rfl, rfl⟩
  | cons top rest =>
    simp only [List.cons_append, placeRecord]
    split
    · exact ⟨_ :: top :: rest, last, rfl, base, rfl, rfl⟩
    · split
      · exact ⟨_ :: rest, last, rfl, base, rfl, rfl⟩
      · exact ⟨_ :: top :: rest, last, rfl, base, rfl, rfl⟩

omit [DecidableEq Block] in
theorem Inserted.stored {config : StandbyReadConfig Page} {next : RedoWorker Block Page}
    {block : Block} {page : Page} {lsn : Nat} {image : Option Nat}
    (fits : ImageFits worker block image)
    (inserted : Inserted config worker next block page lsn image) {record : Record Page}
    {at' : Nat}
    (held : at' < worker.metaInfo.basePageNextPosition ∧ worker.basePages at' = some record.page ∨
      record.page = page ∧ image = some at') :
    at' < next.metaInfo.basePageNextPosition ∧ next.basePages at' = some record.page := by
  rw [inserted.basePages, inserted.basePageNext]
  cases image with
  | none =>
    rcases held with held | ⟨-, absent⟩
    · exact held
    · cases absent
  | some place =>
    obtain rfl := fits.saved place rfl
    dsimp only
    rcases held with ⟨below, kept⟩ | ⟨rfl, here⟩
    · rw [Function.update_of_ne (by omega)]
      exact ⟨by omega, kept⟩
    · obtain rfl := Option.some.inj here
      simp [blcksz]

end

section

variable {Block : Type u} {Page : Type v} [DecidableEq Block]

/-- One call of `insert_lsn_to_block_info`. -/
structure Insertion (Block : Type u) (Page : Type v) where
  block : Block
  basePage : Page
  nextLsn : Nat

/-- A redo worker with the records inserted so far and the pages saved for them. -/
structure Recording (Block : Type u) (Page : Type v) where
  worker : RedoWorker Block Page
  history : Block → List (Record Page)

def Recording.initial (Block : Type u) (Page : Type v) : Recording Block Page :=
  { worker := .initial Block Page, history := fun _ => [] }

/-- The history of a block after an insertion that took one worker state to the next. -/
def addRecord (history : Block → List (Record Page)) (before after : RedoWorker Block Page)
    (call : Insertion Block Page) : Block → List (Record Page) :=
  Function.update history call.block
    (history call.block ++ [⟨call.basePage, call.nextLsn, savedImage before after⟩])

def Recording.insert (config : StandbyReadConfig Page) (state : Recording Block Page)
    (call : Insertion Block Page) : Recording Block Page :=
  let next :=
    insertLsnToBlockInfo config state.worker call.block call.basePage call.nextLsn
  { worker := next, history := addRecord state.history state.worker next call }

/-- What holds between insertions when nothing is recycled. -/
structure Versions (config : StandbyReadConfig Page) (state : Recording Block Page)
    (layouts : Block → List (PlacedNode Page)) : Prop where
  laid : Laid config.pageLsn state.worker layouts
  plain : ∀ block, Plain (layouts block)
  history : ∀ block, state.history block = recordsOf (layouts block)
  oldest : ∀ block, (state.worker.blockInfo block).valid = true → ∃ newer last,
    layouts block = newer ++ [last] ∧ last.isBase ∧
      (state.worker.blockInfo block).minLsn = config.pageLsn last.first.page
  stored : ∀ block, ∀ record ∈ state.history block, ∀ image, record.image = some image →
    image < state.worker.metaInfo.basePageNextPosition ∧ state.worker.basePages image = some record.page
  counted : ∀ block, (state.worker.blockInfo block).valid = true →
    Counted config (state.worker.blockInfo block) (recordsOf (layouts block))

variable {config : StandbyReadConfig Page} {layouts : Block → List (PlacedNode Page)}
  {block : Block} {calls : List (Insertion Block Page)}

theorem Versions.insert {state : Recording Block Page} (versions : Versions config state layouts)
    (call : Insertion Block Page) :
    ∃ placed, Versions config (state.insert config call) placed := by
  have nonempty : (state.worker.blockInfo call.block).valid = true → layouts call.block ≠ [] := by
    intro valid
    obtain ⟨newer, last, here, -⟩ := versions.oldest call.block valid
    simp [here]
  have fresh := versions.laid.invalid call.block
  have fits := imageFor_fits config state.worker call.block
  have same := insertLsnToBlockInfo_eq config state.worker call.block call.basePage call.nextLsn
  have inserted := fileRecord_inserted config fits call.basePage call.nextLsn
  rw [← same] at inserted
  have saved := inserted.image_eq fits
  set image := imageFor config state.worker call.block with images
  refine ⟨Function.update layouts call.block (placeRecord
    state.worker.metaInfo.lsnTableNextPosition ⟨call.basePage, call.nextLsn, image⟩
      (layouts call.block)), ?_, ?_, ?_, ?_, ?_, ?_⟩
  · have placed := versions.laid.fileRecord fits nonempty call.basePage call.nextLsn
    rwa [← same] at placed
  · intro block
    by_cases here : block = call.block
    · subst here
      rw [Function.update_self]
      exact (versions.plain _).placeRecord
    · rw [Function.update_of_ne here]
      exact versions.plain block
  · intro block
    by_cases here : block = call.block
    · subst here
      simp [Recording.insert, addRecord, saved, versions.history]
    · simp [Recording.insert, addRecord, here, versions.history]
  · intro block valid
    by_cases here : block = call.block
    · subst here
      rw [Function.update_self]
      change ∃ newer, ∃ last : PlacedNode Page, _ = newer ++ [last] ∧ last.isBase ∧
        ((insertLsnToBlockInfo config state.worker call.block call.basePage
          call.nextLsn).blockInfo call.block).minLsn = config.pageLsn last.first.page
      rw [inserted.minLsn]
      by_cases old : (state.worker.blockInfo call.block).valid = true
      · obtain ⟨newer, last, layout, base, least⟩ := versions.oldest call.block old
        obtain ⟨above, bottom, placed, bottomBase, same, -⟩ := placeRecord_oldest
          state.worker.metaInfo.lsnTableNextPosition ⟨call.basePage, call.nextLsn, image⟩ newer base
        rw [layout, placed, if_pos old, least]
        exact ⟨above, bottom, rfl, bottomBase, by rw [same]⟩
      · have empty := fresh (by simpa using old)
        rw [empty, if_neg old]
        refine ⟨[], ⟨_, ⟨call.basePage, call.nextLsn, image⟩, []⟩, rfl, ?_, rfl⟩
        simp [PlacedNode.isBase, images, imageFor, old]
    · rw [Function.update_of_ne here]
      have same : (state.insert config call).worker.blockInfo block =
          state.worker.blockInfo block := inserted.others block here
      rw [same] at valid ⊢
      exact versions.oldest block valid
  · intro block record member at' here
    refine inserted.stored fits ?_
    by_cases own : block = call.block
    · subst own
      simp only [Recording.insert, addRecord, Function.update_self, List.mem_append,
        List.mem_singleton] at member
      rcases member with old | rfl
      · exact Or.inl (versions.stored _ record old at' here)
      · exact Or.inr ⟨rfl, saved ▸ here⟩
    · simp only [Recording.insert, addRecord, Function.update_of_ne own] at member
      exact Or.inl (versions.stored block record member at' here)
  · intro block valid
    by_cases here : block = call.block
    · subst here
      rw [Function.update_self, recordsOf_placeRecord]
      refine counted_insert (versions.counted _) ?_ inserted.recordNum
      intro invalid
      simp [fresh invalid]
    · rw [Function.update_of_ne here]
      have same : (state.insert config call).worker.blockInfo block =
          state.worker.blockInfo block := inserted.others block here
      rw [same] at valid ⊢
      exact versions.counted block valid

omit [DecidableEq Block] in
/-- A lookup in a block's layout, from the newest saved page not past the read LSN. -/
theorem getLsnInfoForRead_latest {worker : RedoWorker Block Page} (laid : Laid config.pageLsn worker layouts)
    (plain : Plain (layouts block)) {readLsn : Nat}
    (ordered : config.log.Ordered (recordsOf (layouts block)))
    (reached : ∃ node ∈ layouts block, node.isBase ∧ config.pageLsn node.first.page ≤ readLsn) :
    ∃ info, getLsnInfoForRead worker (newestBase (layouts block)) readLsn = .found info ∧
      config.log.Latest (recordsOf (layouts block)) readLsn info.basePagePos info.basePageLsn
        info.lsnArray := by
  obtain ⟨newer, node, older, image, layout, saved, low, passed⟩ := exists_latest reached
  have threaded := laid.threaded block
  have length := (laid.stacked block).length_le
  rw [layout] at threaded length plain ordered ⊢
  have upper : ThreadedOn config.pageLsn worker.lsnTable block older .top (newer ++ [node]) := by
    apply Threaded.upper
    simpa using threaded
  simp only [List.length_append, List.length_cons] at length
  exact ⟨_, getLsnInfoForRead_eq upper saved low passed (by omega),
    lookupResult_latest plain ordered saved low passed⟩

omit [DecidableEq Block] in
theorem Versions.initial (config : StandbyReadConfig Page) :
    Versions config (.initial Block Page) (fun _ => []) where
  laid :=
    { threaded := fun _ => trivial
      stacked := fun _ => trivial
      apart := fun ⟨_, member, _⟩ => nomatch member
      tail := nofun
      invalid := fun _ _ => rfl }
  plain _ := nofun
  history _ := rfl
  oldest := nofun
  stored _ := nofun
  counted := nofun

/-- The calls of a run, block by block, are its history. -/
theorem history_calls (config : StandbyReadConfig Page) (calls : List (Insertion Block Page))
    (block : Block) : ((calls.foldl (Recording.insert config) (.initial Block Page)).history
      block).map (fun record => (record.page, record.lsn)) =
        (calls.filter (·.block = block)).map fun call => (call.basePage, call.nextLsn) := by
  induction calls using List.reverseRecOn with
  | nil => rfl
  | append_singleton earlier call ih =>
    rw [List.foldl_append]
    by_cases here : call.block = block
    · subst here
      simp [Recording.insert, addRecord, ih]
    · simp [Recording.insert, addRecord, here, Ne.symm here, ih]

theorem history_ordered (config : StandbyReadConfig Page)
    (ordered : (calls.filter (·.block = block)).Pairwise fun first second => first.nextLsn ≤ second.nextLsn) :
    config.log.Ordered ((calls.foldl (Recording.insert config) (.initial Block Page)).history block) := by
  have pairs : (((calls.filter (·.block = block)).map fun call => (call.basePage, call.nextLsn))).Pairwise
        fun first second => first.2 ≤ second.2 := List.pairwise_map.mpr ordered
  rw [← history_calls config] at pairs
  have kept := List.pairwise_map.mp pairs
  exact kept

theorem history_reached (config : StandbyReadConfig Page)
    (reached : ∀ call ∈ calls, config.pageLsn call.basePage ≤ call.nextLsn) {record : Record Page}
    (member : record ∈ (calls.foldl (Recording.insert config) (.initial Block Page)).history block)
      : config.pageLsn record.page ≤ record.lsn := by
  have inside := List.mem_map_of_mem (f := fun record : Record Page => (record.page, record.lsn))
    member
  rw [history_calls] at inside
  obtain ⟨call, found, same⟩ := List.mem_map.mp inside
  obtain ⟨samePage, sameLsn⟩ := Prod.mk.inj same
  rw [← samePage, ← sameLsn]
  exact reached call (List.mem_of_mem_filter found)

theorem exists_versions (config : StandbyReadConfig Page) (calls : List (Insertion Block Page)) :
    ∃ layouts, Versions config (calls.foldl (Recording.insert config) (.initial Block Page))
      layouts := by
  induction calls using List.reverseRecOn with
  | nil => exact ⟨_, Versions.initial config⟩
  | append_singleton earlier call ih =>
    obtain ⟨layouts, versions⟩ := ih
    rw [List.foldl_append]
    exact versions.insert call

/-- Whatever the order of the insertions into all blocks and however often pages are saved, a
lookup not below a block's `min_lsn` finds the newest saved page of the block not past the read LSN,
with the records from there on that are below the read LSN, no more of them than the interval; they
replay to the page as of the read LSN. -/
theorem getPageLsnInfo_latest (config : StandbyReadConfig Page) (calls : List (Insertion Block Page))
    (ordered : ∀ block, (calls.filter (·.block = block)).Pairwise
      fun first second => first.nextLsn ≤ second.nextLsn)
    (reached : ∀ call ∈ calls, config.pageLsn call.basePage ≤ call.nextLsn) {block : Block}
    (recorded : ∃ call ∈ calls, call.block = block) {readLsn : Nat} :
    let state := calls.foldl (Recording.insert config) (.initial Block Page)
    let history := state.history block
    (state.worker.blockInfo block).minLsn ≤ readLsn →
    history.map (fun record => (record.page, record.lsn)) =
        (calls.filter (·.block = block)).map (fun call => (call.basePage, call.nextLsn)) ∧
      ∃ info, getPageLsnInfo state.worker block readLsn = .found info ∧
        config.log.Latest history readLsn info.basePagePos info.basePageLsn info.lsnArray ∧
        info.lsnArray.length ≤ config.basePageSavedInterval ∧
        ∃ page, state.worker.basePages info.basePagePos = some page ∧
          config.pageLsn page = info.basePageLsn ∧
          ∀ redo, config.log.Replayed redo history →
            config.log.asOf redo history readLsn = some (info.lsnArray.foldl redo page) := by
  intro state history above
  refine ⟨history_calls config calls block, ?_⟩
  obtain ⟨layouts, versions⟩ := exists_versions config calls
  have recordsHere : history = recordsOf (layouts block) := versions.history block
  have inOrder : config.log.Ordered history := history_ordered config (ordered block)
  obtain ⟨call, member, rfl⟩ := recorded
  have nonempty : layouts call.block ≠ [] := by
    intro empty
    have erased := history_calls config calls call.block
    rw [versions.history, empty] at erased
    have found : call ∈ calls.filter (·.block = call.block) := by simp [member]
    rw [List.map_eq_nil_iff.mp erased.symm] at found
    cases found
  have valid := versions.laid.valid_of_nonempty nonempty
  obtain ⟨newer, last, layout, base, least⟩ := versions.oldest call.block valid
  obtain ⟨info, answer, latest⟩ := getLsnInfoForRead_latest versions.laid
    (versions.plain call.block) (recordsHere ▸ inOrder)
    ⟨last, by simp [layout], base, least ▸ above⟩
  rw [← recordsHere] at latest
  refine ⟨info, ?_, latest, ?_, ?_⟩
  · unfold getPageLsnInfo
    rw [if_neg (not_not_intro valid), if_neg (Nat.not_lt.mpr above), (versions.laid.tail _ valid).2]
    exact answer
  · refine latest.length_le inOrder ?_ ?_
    · exact fun record inside => history_reached config reached inside
    · exact recordsHere ▸ (versions.counted _ valid).spaced
  · have stored := fun record inside => versions.stored call.block record inside info.basePagePos
    obtain ⟨record, inside, saved, version⟩ := latest.entry
    refine ⟨record.page, (stored record inside saved).2, version, ?_⟩
    intro redo replayed
    obtain ⟨entry, found, same, restored⟩ := latest.replay inOrder replayed
    have samePage := (stored record inside saved).2.symm.trans (stored entry found same).2
    rw [Option.some.inj samePage]
    exact restored

theorem getPageLsnInfo_latest_interleaved : let config : StandbyReadConfig Nat := ⟨2, by decide, id⟩
    let calls : List (Insertion Bool Nat) := [⟨true, 0, 5⟩, ⟨false, 0, 6⟩, ⟨true, 7, 8⟩,
      ⟨false, 8, 9⟩, ⟨true, 10, 12⟩, ⟨true, 14, 16⟩, ⟨false, 11, 17⟩]
    let state := calls.foldl (Recording.insert config) (.initial Bool Nat)
    getPageLsnInfo state.worker true 9 = .found ⟨0, 0, [5, 8]⟩ ∧
      getPageLsnInfo state.worker true 16 = .found ⟨16384, 10, [12]⟩ ∧
      ∃ info, getPageLsnInfo state.worker true 16 = .found info ∧
        config.log.Latest (state.history true) 16 info.basePagePos info.basePageLsn info.lsnArray ∧
        info.lsnArray.length ≤ 2 := by
  refine ⟨by decide, by decide, ?_⟩
  obtain ⟨-, info, answer, latest, short, -⟩ := @getPageLsnInfo_latest Bool Nat _
    ⟨2, by decide, id⟩ [⟨true, 0, 5⟩, ⟨false, 0, 6⟩, ⟨true, 7, 8⟩, ⟨false, 8, 9⟩, ⟨true, 10, 12⟩,
      ⟨true, 14, 16⟩, ⟨false, 11, 17⟩]
    (by decide) (by decide) true ⟨⟨true, 0, 5⟩, by simp, rfl⟩ 16 (by decide)
  exact ⟨info, answer, latest, short⟩

end

end OpenGauss.StandbyRead
