import OpenGauss.StandbyRead.BlockInfo

namespace OpenGauss.StandbyRead

universe u v

section

variable {Block : Type u} {Page : Type v} {pageLsn : Page → Nat} {table : LsnTable Block} {block : Block}

@[simp] theorem setCell_cell (position : Nat) (cell : Cell Block) :
    (table.setCell position cell).cell = Function.update table.cell position cell := rfl

variable {position : Nat} {older : List (PlacedNode Page)} {top : PlacedNode Page} {above : Above}
  {layout : List (PlacedNode Page)} {limit : Nat}

theorem modifyLsnInfo_cell {node : LsnInfoNode} (here : table.cell position = .lsnInfo node)
    (change : LsnInfoNode → LsnInfoNode) :
    (table.modifyLsnInfo position change).cell =
      Function.update table.cell position (.lsnInfo (change node)) := by
  simp [LsnTable.modifyLsnInfo, here]

theorem modifyLsnInfo_cell_of_ne {position other : Nat} (different : other ≠ position)
    (change : LsnInfoNode → LsnInfoNode) :
    (table.modifyLsnInfo position change).cell other = table.cell other := by
  unfold LsnTable.modifyLsnInfo
  split <;> simp [different]

theorem modifyBasePage_cell {part : BasePagePart Block}
    (here : table.cell (position + lsnInfoNodeSize) = .basePage part)
    (change : BasePagePart Block → BasePagePart Block) :
    (table.modifyBasePage position change).cell =
      Function.update table.cell (position + lsnInfoNodeSize) (.basePage (change part)) := by
  simp [LsnTable.modifyBasePage, here]

theorem modifyBasePage_cell_of_ne {position other : Nat} (different : other ≠ position + lsnInfoNodeSize)
    (change : BasePagePart Block → BasePagePart Block) :
    (table.modifyBasePage position change).cell other = table.cell other := by
  unfold LsnTable.modifyBasePage
  split <;> simp [different]

/-- A node's own cells do not lie among those of older nodes. -/
theorem Stacked.not_covers {limit position : Nat} {node : PlacedNode Page}
    (stacked : Stacked limit (node :: older)) (own : node.covers position) : ¬ Covers older position := by
  intro covered
  have below := stacked.2.lt_of_covers covered
  have above := PlacedNode.le_of_covers own
  omega

theorem Threaded.linkNext {nextBase : Option Nat} {nextBaseLsn limit : Nat}
    (threaded : Threaded pageLsn table block ⟨none, nextBase, nextBaseLsn⟩ (top :: older))
    (stacked : Stacked limit (top :: older)) (insertPos : Nat) :
    Threaded pageLsn (table.modifyOldTail top.position insertPos) block
      ⟨some insertPos, nextBase, nextBaseLsn⟩ (top :: older) := by
  obtain ⟨here, below⟩ := threaded
  obtain ⟨valid, cell⟩ := here.lsnInfo
  have cells := modifyLsnInfo_cell cell
    (fun node => { node with lsnList := { node.lsnList with next := some insertPos } })
  refine ⟨⟨⟨valid, ?_⟩, ?_⟩, ?_⟩
  · rw [LsnTable.modifyOldTail, cells]
    simp
  · intro image saved
    rw [LsnTable.modifyOldTail, cells, Function.update_of_ne (by simp [lsnInfoNodeSize])]
    exact here.basePage image saved
  · have sameAbove : Above.below pageLsn ⟨some insertPos, nextBase, nextBaseLsn⟩ top =
        Above.below pageLsn ⟨none, nextBase, nextBaseLsn⟩ top := by
      unfold Above.below
      split <;> rfl
    rw [sameAbove]
    refine below.congr ?_
    intro position covered
    apply modifyLsnInfo_cell_of_ne
    rintro rfl
    exact stacked.not_covers (Or.inl rfl) covered

/-- The base page links above a layout without base page nodes do not matter. -/
theorem Threaded.nextBase_irrelevant (threaded : Threaded pageLsn table block above layout)
    (absent : newestBase layout = none) (nextBase : Option Nat) (nextBaseLsn : Nat) :
    Threaded pageLsn table block ⟨above.next, nextBase, nextBaseLsn⟩ layout := by
  induction layout generalizing above with
  | nil => trivial
  | cons node older ih =>
    obtain ⟨here, below⟩ := threaded
    by_cases base : node.isBase
    · simp [newestBase, base] at absent
    · have noImage : node.first.image = .none := by
        simpa [PlacedNode.isBase] using base
      refine ⟨⟨here.lsnInfo, ?_⟩, ?_⟩
      · intro image saved
        rw [noImage] at saved
        cases saved
      · simp only [Above.below, base, Bool.false_eq_true, if_false] at below ⊢
        exact ih below (by simpa [newestBase, base] using absent)

theorem Threaded.linkNextBase {limit basePos : Nat} (threaded : Threaded pageLsn table block above layout)
    (stacked : Stacked limit layout) (newest : newestBase layout = some basePos)
    (insertPos currentPageLsn : Nat) :
    Threaded pageLsn (table.modifyOldBaseTail basePos insertPos currentPageLsn) block
      ⟨above.next, some insertPos, currentPageLsn⟩ layout := by
  induction layout generalizing above limit with
  | nil => cases newest
  | cons node older ih =>
    obtain ⟨here, below⟩ := threaded
    by_cases base : node.isBase
    · obtain rfl : node.position = basePos := by simpa [newestBase, base] using newest
      obtain ⟨image, saved⟩ := Option.isSome_iff_exists.mp base
      have cells := modifyBasePage_cell (here.basePage image saved) (fun part =>
        { part with
          basePageList := { part.basePageList with next := some insertPos }
          nextBasePageLsn := currentPageLsn })
      refine ⟨⟨?_, ?_⟩, ?_⟩
      · rw [LsnTable.modifyOldBaseTail, cells, Function.update_of_ne (by simp [lsnInfoNodeSize])]
        exact here.lsnInfo
      · intro other same
        obtain rfl : image = other := Option.some.inj (saved.symm.trans same)
        rw [LsnTable.modifyOldBaseTail, cells]
        simp
      · simp only [Above.below, base, if_true] at below ⊢
        refine below.congr ?_
        intro position covered
        apply modifyBasePage_cell_of_ne
        rintro rfl
        exact stacked.not_covers (Or.inr ⟨base, rfl⟩) covered
    · have deeper : newestBase older = some basePos := by simpa [newestBase, base] using newest
      have noImage : node.first.image = none := by simpa [PlacedNode.isBase] using base
      have inside := (covers_newestBase deeper).2
      refine ⟨⟨?_, ?_⟩, ?_⟩
      · rw [LsnTable.modifyOldBaseTail, modifyBasePage_cell_of_ne]
        · exact here.lsnInfo
        · intro clash
          exact stacked.not_covers (Or.inl clash.symm) inside
      · intro image saved
        rw [noImage] at saved
        cases saved
      · simp only [Above.below, base, Bool.false_eq_true, if_false] at below ⊢
        exact ih below stacked.2 deeper

theorem linkOldTails_cell (outside : ¬ Covers layout position) (insertPos currentPageLsn : Nat) :
    (table.linkOldTails (newestPosition layout) (newestBase layout) insertPos
      currentPageLsn).cell position = table.cell position := by
  unfold LsnTable.linkOldTails
  extract_lets linked
  have first : linked.cell position = table.cell position := by
    cases layout with
    | nil => rfl
    | cons top older =>
      apply modifyLsnInfo_cell_of_ne
      rintro rfl
      exact outside ⟨top, by simp, Or.inl rfl⟩
  cases newest : newestBase layout with
  | none => exact first
  | some basePos =>
    refine Eq.trans ?_ first
    apply modifyBasePage_cell_of_ne
    rintro rfl
    exact outside (covers_newestBase newest).2

theorem Threaded.linkOldTails (threaded : Threaded pageLsn table block .top layout)
    (stacked : Stacked limit layout) (insertPos currentPageLsn : Nat) :
    Threaded pageLsn (table.linkOldTails (newestPosition layout) (newestBase layout) insertPos
      currentPageLsn) block ⟨some insertPos, some insertPos, currentPageLsn⟩ layout := by
  cases layout with
  | nil => trivial
  | cons top older =>
    have linked := threaded.linkNext stacked insertPos
    unfold LsnTable.linkOldTails
    dsimp only [newestPosition, List.head?_cons, Option.map_some]
    cases newest : newestBase (top :: older) with
    | none => exact linked.nextBase_irrelevant newest _ _
    | some basePos => exact linked.linkNextBase stacked newest insertPos currentPageLsn

theorem Threaded.addLsn (threaded : Threaded pageLsn table block above (top :: older))
    (stacked : Stacked limit (top :: older)) (record : Record Page) :
    Threaded pageLsn (table.modifyLsnInfo top.position
        fun node => { node with lsn := node.lsn ++ [record.lsn] }) block above
      ({ top with rest := top.rest ++ [record] } :: older) := by
  obtain ⟨here, below⟩ := threaded
  obtain ⟨valid, cell⟩ := here.lsnInfo
  have cells := modifyLsnInfo_cell cell (fun node => { node with lsn := node.lsn ++ [record.lsn] })
  refine ⟨⟨⟨valid, ?_⟩, ?_⟩, ?_⟩
  · rw [cells, Function.update_self]
    simp only [PlacedNode.records, List.map_cons, List.map_append, List.map_nil, List.cons_append]
    rfl
  · intro image saved
    rw [cells, Function.update_of_ne (by simp [lsnInfoNodeSize])]
    exact here.basePage image saved
  · refine Threaded.congr below ?_
    intro position covered
    apply modifyLsnInfo_cell_of_ne
    rintro rfl
    exact stacked.not_covers (Or.inl rfl) covered

end

end OpenGauss.StandbyRead
