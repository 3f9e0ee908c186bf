import OpenGauss.Lib.VersionLog
import OpenGauss.StandbyRead.BlockLayouts

/-! The backward walk of a lookup meets the nodes above the base page it stops at, and the forward
walk meets them again. -/

namespace OpenGauss.StandbyRead

open Lib

universe u v

section

variable {Block : Type u} {Page : Type v} (pageLsn : Page → Nat)

/-- The file holds the upper part of a layout, whatever it holds for the nodes under it. -/
def ThreadedOn (table : LsnTable Block) (block : Block) (older : List (PlacedNode Page)) :
    Above → List (PlacedNode Page) → Prop
  | _, [] => True
  | above, node :: rest =>
    NodeAt pageLsn table block above node (rest ++ older) ∧
      ThreadedOn table block older (above.below pageLsn node) rest

variable {pageLsn} {table changed : LsnTable Block} {block : Block}

variable {above : Above} {newer older : List (PlacedNode Page)} {node : PlacedNode Page}

theorem Threaded.upper (threaded : Threaded pageLsn table block above (newer ++ older)) :
    ThreadedOn pageLsn table block older above newer := by
  induction newer generalizing above with
  | nil => trivial
  | cons node rest ih => exact ⟨threaded.1, ih threaded.2⟩

theorem threadedOn_append {front back older : List (PlacedNode Page)} :
    ThreadedOn pageLsn table block older above (front ++ back) ↔
      ThreadedOn pageLsn table block (back ++ older) above front ∧
        ThreadedOn pageLsn table block older (front.foldl (Above.below pageLsn) above) back := by
  induction front generalizing above with
  | nil => simp [ThreadedOn]
  | cons node rest ih => simp [ThreadedOn, ih, and_assoc]

theorem NodeAt.lsnInfo? {older : List (PlacedNode Page)} (here : NodeAt pageLsn table block above node older) :
    ∃ valid, table.lsnInfo? node.position = some
      { lsnList := ⟨newestPosition older, above.next⟩, valid, type := node.type,
        lsn := node.records.map (·.lsn) } := by
  obtain ⟨valid, cell⟩ := here.lsnInfo
  exact ⟨valid, by simp [LsnTable.lsnInfo?, cell]⟩

theorem NodeAt.basePagePart? {older : List (PlacedNode Page)} {image : Nat}
    (here : NodeAt pageLsn table block above node older) (saved : node.first.image = some image) :
    table.basePagePart? node.position = some
      { basePageList := ⟨newestBase older, above.nextBase⟩, curPageLsn := pageLsn node.first.page,
        block, nextBasePageLsn := above.nextBaseLsn, basePagePosition := image } := by
  simp [LsnTable.basePagePart?, here.basePage image saved]

/-- The backward walk stops at the newest base page that is not newer than the read LSN. -/
theorem findBasePage_eq {readLsn image fuel : Nat}
    (threaded : ThreadedOn pageLsn table block older above (newer ++ [node]))
    (saved : node.first.image = some image) (reached : pageLsn node.first.page ≤ readLsn)
    (passed : ∀ later ∈ newer, later.isBase → readLsn < pageLsn later.first.page)
    (enough : newer.length < fuel) :
    ∃ part, findBasePage table readLsn fuel (newestBase (newer ++ node :: older)) =
        some (node.position, part) ∧
      part.curPageLsn = pageLsn node.first.page ∧ part.basePagePosition = image := by
  have isBase : node.isBase := by simp [PlacedNode.isBase, saved]
  induction newer generalizing above fuel with
  | nil =>
    obtain ⟨spare, rfl⟩ := Nat.exists_eq_succ_of_ne_zero (Nat.ne_of_gt enough)
    simp only [List.nil_append, newestBase, isBase, if_true, findBasePage,
      threaded.1.basePagePart? saved, reached]
    exact ⟨_, rfl, rfl, rfl⟩
  | cons first rest ih =>
    obtain ⟨here, below⟩ := threaded
    have later := fun other member => passed other (List.mem_cons_of_mem first member)
    simp only [List.length_cons] at enough
    by_cases base : first.isBase
    · obtain ⟨newImage, newSaved⟩ := Option.isSome_iff_exists.mp base
      have newer := passed first (by simp) base
      obtain ⟨spare, rfl⟩ := Nat.exists_eq_succ_of_ne_zero (Nat.ne_of_gt (Nat.zero_lt_of_lt enough))
      simp only [List.cons_append, newestBase, base, if_true, findBasePage,
        here.basePagePart? newSaved, Nat.not_le.mpr newer, if_false]
      simpa using ih below later (Nat.lt_of_succ_lt_succ enough)
    · simp only [List.cons_append, newestBase, base, Bool.false_eq_true, if_false]
      exact ih below later (Nat.lt_of_succ_lt enough)

theorem takeWhile_append_of_stop {lsns more : List Nat} {readLsn : Nat}
    (stop : ∃ lsn ∈ lsns, readLsn ≤ lsn) :
    (lsns ++ more).takeWhile (· < readLsn) = lsns.takeWhile (· < readLsn) := by
  induction lsns with
  | nil => simp at stop
  | cons lsn rest ih =>
    by_cases below : lsn < readLsn
    · obtain ⟨other, member, high⟩ := stop
      have deeper : other ∈ rest := by
        rcases List.mem_cons.mp member with rfl | member
        · omega
        · exact member
      simp [below, ih ⟨other, deeper, high⟩]
    · simp [below]

/-- The forward walk collects the LSNs up to the first that is not below the read LSN. -/
theorem collectLsns_eq {readLsn fuel : Nat}
    (threaded : ThreadedOn pageLsn table block older .top (newer ++ [node])) (enough : newer.length < fuel) :
    collectLsns table readLsn fuel node.position =
      some (((recordsOf (newer ++ [node])).map (·.lsn)).takeWhile (· < readLsn)) := by
  induction newer using List.reverseRecOn generalizing node older fuel with
  | nil =>
    obtain ⟨spare, rfl⟩ := Nat.exists_eq_succ_of_ne_zero (Nat.ne_of_gt enough)
    obtain ⟨valid, here⟩ := threaded.1.lsnInfo?
    simp [collectLsns, here, Above.top]
  | append_singleton rest next ih =>
    obtain ⟨upper, lower⟩ := threadedOn_append.mp threaded
    obtain ⟨valid, here⟩ := lower.1.lsnInfo?
    simp only [List.length_append, List.length_singleton] at enough
    obtain ⟨spare, rfl⟩ := Nat.exists_eq_succ_of_ne_zero (Nat.ne_of_gt (Nat.zero_lt_of_lt enough))
    have link : ((rest ++ [next]).foldl (Above.below pageLsn) .top).next = some next.position := by
      rw [List.foldl_append]
      simp only [List.foldl_cons, List.foldl_nil, Above.below]
      split <;> rfl
    have onward := ih upper (Nat.lt_of_succ_lt_succ enough)
    simp only [collectLsns, here, link, onward, Option.map_some]
    rw [recordsOf_append (rest ++ [next]) [node], List.map_append]
    simp only [recordsOf_cons, recordsOf_nil, List.nil_append]
    by_cases stop : ∃ lsn ∈ node.records.map (·.lsn), readLsn ≤ lsn
    · rw [if_pos (by simpa using stop), takeWhile_append_of_stop stop]
    · rw [if_neg (by simpa using stop)]
      have all : ∀ lsn ∈ node.records.map (·.lsn), decide (lsn < readLsn) = true := by
        intro lsn member
        by_contra high
        exact stop ⟨lsn, member, by simpa using high⟩
      rw [List.takeWhile_append_of_pos all, List.takeWhile_eq_self_iff.mpr all]

end

section

variable {Block : Type u} {Page : Type v}

/-- The log of one block. -/
def StandbyReadConfig.log (config : StandbyReadConfig Page) : VersionLog (Record Page) Page Nat Nat where
  stamp := Record.lsn
  state := Record.page
  image := Record.image
  version := config.pageLsn

variable {config : StandbyReadConfig Page}

/-- Only the first record of a node can have its page saved. -/
def Plain (layout : List (PlacedNode Page)) : Prop :=
  ∀ node ∈ layout, ∀ record ∈ node.rest, record.image = none

variable {layout : List (PlacedNode Page)} {newer older : List (PlacedNode Page)}
  {node : PlacedNode Page} {image readLsn : Nat}

theorem Plain.placeRecord {nextPosition : Nat} {record : Record Page} (plain : Plain layout) :
    Plain (placeRecord nextPosition record layout) := by
  cases layout with
  | nil =>
    intro node member
    obtain rfl := List.mem_singleton.mp member
    rintro _ ⟨⟩
  | cons top older =>
    simp only [StandbyRead.placeRecord]
    split
    · intro node member
      rcases List.mem_cons.mp member with rfl | member
      · rintro _ ⟨⟩
      · exact plain node member
    · rename_i unsaved
      split
      · intro node member other inside
        rcases List.mem_cons.mp member with rfl | member
        · rcases List.mem_append.mp inside with old | new
          · exact plain top (by simp) other old
          · rw [List.mem_singleton.mp new]
            simpa using unsaved
        · exact plain node (List.mem_cons_of_mem _ member) other inside
      · intro node member
        rcases List.mem_cons.mp member with rfl | member
        · rintro _ ⟨⟩
        · exact plain node member

/-- The newest base page node not past the read LSN splits the layout. -/
theorem exists_latest {readLsn : Nat}
    (reached : ∃ node ∈ layout, node.isBase ∧ config.pageLsn node.first.page ≤ readLsn) :
    ∃ newer node older image, layout = newer ++ node :: older ∧ node.first.image = some image ∧
      config.pageLsn node.first.page ≤ readLsn ∧
      ∀ later ∈ newer, later.isBase → readLsn < config.pageLsn later.first.page := by
  induction layout with
  | nil => simp at reached
  | cons top older ih =>
    by_cases here : top.isBase ∧ config.pageLsn top.first.page ≤ readLsn
    · obtain ⟨image, saved⟩ := Option.isSome_iff_exists.mp here.1
      exact ⟨[], top, older, image, rfl, saved, here.2, by simp⟩
    · obtain ⟨node, member, base, low⟩ := reached
      have deeper : node ∈ older := by
        rcases List.mem_cons.mp member with rfl | member
        · exact absurd ⟨base, low⟩ here
        · exact member
      obtain ⟨newer, found, rest, image, rfl, saved, low, above⟩ := ih ⟨node, deeper, base, low⟩
      refine ⟨top :: newer, found, rest, image, rfl, saved, low, ?_⟩
      intro later inside laterBase
      rcases List.mem_cons.mp inside with rfl | inside
      · exact Nat.lt_of_not_le fun notAbove => here ⟨laterBase, notAbove⟩
      · exact above later inside laterBase

theorem takeWhile_eq_filter {lsns : List Nat} {readLsn : Nat} (ordered : lsns.Pairwise (· ≤ ·)) :
    lsns.takeWhile (· < readLsn) = lsns.filter (· < readLsn) := by
  induction lsns with
  | nil => rfl
  | cons lsn rest ih =>
    by_cases below : lsn < readLsn
    · simp [below, ih ordered.tail]
    · have absent : rest.filter (· < readLsn) = [] := by
        apply List.filter_eq_nil_iff.mpr
        intro other member
        have := List.rel_of_pairwise_cons ordered member
        simp only [decide_eq_true_eq]
        omega
      simp [below, absent]

/-- What a lookup that ends at `node` returns. -/
def lookupResult (config : StandbyReadConfig Page) (newer : List (PlacedNode Page))
    (node : PlacedNode Page) (image readLsn : Nat) : LsnInfoArray :=
  ⟨image, config.pageLsn node.first.page,
    ((recordsOf (newer ++ [node])).map (·.lsn)).takeWhile (· < readLsn)⟩

/-- A lookup reads only the nodes from the base page on that it stops at. -/
theorem getLsnInfoForRead_eq {worker : RedoWorker Block Page} {block : Block}
    (threaded : ThreadedOn config.pageLsn worker.lsnTable block older .top (newer ++ [node]))
    (saved : node.first.image = some image) (reached : config.pageLsn node.first.page ≤ readLsn)
    (passed : ∀ later ∈ newer, later.isBase → readLsn < config.pageLsn later.first.page)
    (enough : newer.length < worker.metaInfo.lsnTableNextPosition) :
    getLsnInfoForRead worker (newestBase (newer ++ node :: older)) readLsn =
      .found (lookupResult config newer node image readLsn) := by
  obtain ⟨part, search, version, place⟩ := findBasePage_eq threaded saved reached passed enough
  have collected := @collectLsns_eq _ _ _ _ _ _ _ _ readLsn _ threaded enough
  simp only [getLsnInfoForRead, search, collected, version, place, lookupResult]

theorem lookupResult_latest (plain : Plain (newer ++ node :: older))
    (ordered : config.log.Ordered (recordsOf (newer ++ node :: older)))
    (saved : node.first.image = some image) (reached : config.pageLsn node.first.page ≤ readLsn)
    (passed : ∀ later ∈ newer, later.isBase → readLsn < config.pageLsn later.first.page) :
    config.log.Latest (recordsOf (newer ++ node :: older)) readLsn image (config.pageLsn node.first.page)
      (lookupResult config newer node image readLsn).lsnArray := by
  have whole : recordsOf (newer ++ node :: older) =
      recordsOf older ++ node.first :: (node.rest ++ recordsOf newer) := by
    simp [PlacedNode.records]
  refine ⟨recordsOf older, node.first, node.rest ++ recordsOf newer, whole, saved, rfl, reached, ?_, ?_⟩
  · intro later member imaged
    rcases List.mem_append.mp member with inRest | inNewer
    · have unsaved := plain node (by simp) later inRest
      change later.image.isSome at imaged
      simp [unsaved] at imaged
    · clear whole ordered
      induction newer with
      | nil => cases inNewer
      | cons top rest ih =>
        rw [recordsOf_cons, List.mem_append] at inNewer
        rcases inNewer with deeper | here
        · exact ih (fun node member => plain node (List.mem_cons_of_mem _ member))
            (fun other inside => passed other (List.mem_cons_of_mem _ inside))
            (by simp [deeper]) deeper
        · rcases List.mem_cons.mp here with rfl | inRest
          · exact passed top (by simp) imaged
          · have unsaved := plain top (by simp) later inRest
            change later.image.isSome at imaged
            simp [unsaved] at imaged
  · have sorted : ((node.first :: (node.rest ++ recordsOf newer)).map (·.lsn)).Pairwise (· ≤ ·) := by
      rw [whole] at ordered
      exact List.pairwise_map.mpr (List.pairwise_append.mp ordered).2.1
    unfold lookupResult
    dsimp only
    rw [← List.cons_append] at sorted
    rw [recordsOf_append, recordsOf_cons, recordsOf_nil, List.nil_append]
    exact takeWhile_eq_filter sorted

end

end OpenGauss.StandbyRead
