import OpenGauss.Lib.Bytes

/-! Records of one size packed into pages, each page closed by a check word over its records. -/

namespace OpenGauss.Lib

universe u

/-- Sizes count cells. The check word of a page lies behind its last record. -/
structure PageShape where
  width : Nat
  perPage : Nat
  pageSize : Nat
  perPage_pos : 0 < perPage
  room : perPage * width < pageSize

namespace PageShape

variable {Cell : Type u} (shape : PageShape)

/-- Where the record number `index` lies. -/
def address (index : Nat) : Nat :=
  index / shape.perPage * shape.pageSize + index % shape.perPage * shape.width

/-- The check word of a page with `count` records matches them. -/
def Sealed (check : List Cell → Cell) (storage : Nat → Cell) (page count : Nat) : Prop :=
  storage (page * shape.pageSize + count * shape.width) =
    check (readAt storage (page * shape.pageSize) (count * shape.width))

/-- Write the check word over the first `count` records of a page. -/
def close (check : List Cell → Cell) (storage : Nat → Cell) (page count : Nat) : Nat → Cell :=
  writeAt storage (page * shape.pageSize + count * shape.width)
    [check (readAt storage (page * shape.pageSize) (count * shape.width))]

variable {shape}

theorem address_page {index page slot : Nat} (inside : slot < shape.perPage)
    (split : index = page * shape.perPage + slot) :
    shape.address index = page * shape.pageSize + slot * shape.width := by
  subst split
  have page_eq : (page * shape.perPage + slot) / shape.perPage = page := by
    rw [Nat.mul_comm, Nat.mul_add_div shape.perPage_pos, Nat.div_eq_of_lt inside, Nat.add_zero]
  have slot_eq : (page * shape.perPage + slot) % shape.perPage = slot := by
    rw [Nat.mul_comm, Nat.mul_add_mod, Nat.mod_eq_of_lt inside]
  rw [address, page_eq, slot_eq]

/-- Counted from the start of a page, addresses only shift by the pages before it. -/
theorem address_add (shape : PageShape) (pages index : Nat) :
    shape.address (pages * shape.perPage + index) = pages * shape.pageSize + shape.address index := by
  have whole := Nat.div_add_mod index shape.perPage
  have split : pages * shape.perPage + index =
      (pages + index / shape.perPage) * shape.perPage + index % shape.perPage := by
    rw [Nat.add_mul, Nat.mul_comm (index / _), Nat.add_assoc, whole]
  rw [address_page (Nat.mod_lt index shape.perPage_pos) split, address, Nat.add_mul, Nat.add_assoc]

/-- A record ends before the check word of its page. -/
theorem address_end (shape : PageShape) (index : Nat) : shape.address index + shape.width ≤
      index / shape.perPage * shape.pageSize + (index % shape.perPage + 1) * shape.width := by
  rw [address, Nat.add_mul, Nat.one_mul, Nat.add_assoc]

theorem slots_room {count : Nat} (inside : count ≤ shape.perPage) :
    count * shape.width + 1 ≤ shape.pageSize :=
  Nat.lt_of_le_of_lt (Nat.mul_le_mul_right _ inside) shape.room

theorem page_before (shape : PageShape) {first second count : Nat} (below : first < second)
    (inside : count ≤ shape.perPage) :
    first * shape.pageSize + count * shape.width + 1 ≤ second * shape.pageSize := by
  have room := slots_room inside
  have pages := Nat.mul_le_mul_right shape.pageSize below
  rw [Nat.succ_mul] at pages
  omega

theorem slot_le (shape : PageShape) (index : Nat) : index % shape.perPage + 1 ≤ shape.perPage :=
  Nat.mod_lt index shape.perPage_pos

theorem address_disjoint (shape : PageShape) {first second : Nat} (below : first < second) :
    shape.address first + shape.width ≤ shape.address second := by
  have ends := address_end shape first
  rcases Nat.lt_or_ge (first / shape.perPage) (second / shape.perPage) with earlier | same
  · have before := shape.page_before earlier (slot_le shape first)
    unfold address at *
    omega
  · have pages : second / shape.perPage = first / shape.perPage :=
      Nat.le_antisymm same (Nat.div_le_div_right below.le)
    have slots : first % shape.perPage + 1 ≤ second % shape.perPage := by
      have first_eq := Nat.div_add_mod first shape.perPage
      have second_eq := Nat.div_add_mod second shape.perPage
      rw [pages] at second_eq
      omega
    have order := Nat.mul_le_mul_right shape.width slots
    rw [address, address, pages]
    rw [Nat.succ_mul] at order
    omega

variable {record : List Cell} {check : List Cell → Cell} {first count page records : Nat}

variable (storage : Nat → Cell) (target source : Nat → Cell)

theorem read_other {index other : Nat} (length : record.length = shape.width) (different : other ≠ index) :
    readAt (writeAt storage (shape.address index) record) (shape.address other) shape.width =
      readAt storage (shape.address other) shape.width := by
  apply readAt_writeAt_outside
  rw [length]
  rcases Nat.lt_or_gt_of_ne different with before | after
  · exact Or.inl (shape.address_disjoint before)
  · exact Or.inr (shape.address_disjoint after)

theorem read_same {index : Nat} (length : record.length = shape.width) :
    readAt (writeAt storage (shape.address index) record) (shape.address index) shape.width = record := by
  rw [← length]
  exact readAt_writeAt storage _ record

/-- A page keeps its check word when another page is written. -/
theorem Sealed.of_same {storage later : Nat → Cell} {page count : Nat}
    (closed : shape.Sealed check storage page count)
    (same : ∀ cell, page * shape.pageSize ≤ cell →
      cell ≤ page * shape.pageSize + count * shape.width → later cell = storage cell) :
    shape.Sealed check later page count := by
  have records : readAt later (page * shape.pageSize) (count * shape.width) =
      readAt storage (page * shape.pageSize) (count * shape.width) :=
    readAt_congr fun cell low high => same cell low high.le
  rw [Sealed, same _ (Nat.le_add_right _ _) (Nat.le_refl _), records]
  exact closed

theorem sealed_close (check : List Cell → Cell) (storage : Nat → Cell) (page count : Nat) :
    shape.Sealed check (shape.close check storage page count) page count := by
  have records : readAt (shape.close check storage page count) (page * shape.pageSize)
      (count * shape.width) = readAt storage (page * shape.pageSize) (count * shape.width) :=
    readAt_writeAt_outside storage (Or.inl (Nat.le_refl _))
  rw [Sealed, records]
  exact @writeAt_inside _ storage _ 0 _ (by simp)

/-- Closing a page leaves the records it counts, and all records of other pages. -/
theorem read_close (check : List Cell → Cell) (storage : Nat → Cell) {page count index : Nat}
    (inside : count ≤ shape.perPage)
    (counted : index / shape.perPage = page → index % shape.perPage < count) :
    readAt (shape.close check storage page count) (shape.address index) shape.width =
      readAt storage (shape.address index) shape.width := by
  apply readAt_writeAt_outside
  simp only [List.length_singleton]
  have ends := address_end shape index
  rcases Nat.lt_trichotomy (index / shape.perPage) page with before | same | after
  · have gap := shape.page_before before (slot_le shape index)
    exact Or.inl (by omega)
  · have slots := Nat.mul_le_mul_right shape.width (Nat.succ_le_of_lt (counted same))
    rw [same] at ends
    exact Or.inl (by simp only [Nat.succ_eq_add_one] at slots; omega)
  · have gap := shape.page_before after inside
    exact Or.inr (by unfold address; omega)

theorem close_outside (check : List Cell → Cell) (storage : Nat → Cell) {page count cell : Nat}
    (outside : cell ≠ page * shape.pageSize + count * shape.width) :
    shape.close check storage page count cell = storage cell :=
  writeAt_outside storage (by simp; omega)

/-- Copy the first `count` pages of a buffer to the pages from `first` on. -/
def copyPages (shape : PageShape) (target source : Nat → Cell) (first count : Nat) : Nat → Cell :=
  writeAt target (first * shape.pageSize) (readAt source 0 (count * shape.pageSize))

theorem copyPages_cell {first count offset : Nat} (inside : offset < count * shape.pageSize) :
    shape.copyPages target source first count (first * shape.pageSize + offset) = source offset := by
  rw [copyPages, writeAt_inside target (by simpa using inside)]
  simp [readAt]

theorem copyPages_outside {first count cell : Nat}
    (outside : cell < first * shape.pageSize ∨ (first + count) * shape.pageSize ≤ cell) :
    shape.copyPages target source first count cell = target cell := by
  apply writeAt_outside
  rw [length_readAt, ← Nat.add_mul]
  exact outside

theorem page_inside (shape : PageShape) {page count cell : Nat} (inside : page < count)
    (within : cell ≤ page * shape.pageSize + shape.perPage * shape.width) :
    cell < count * shape.pageSize := by
  have gap := shape.page_before inside (Nat.le_refl _)
  omega

theorem address_mono (shape : PageShape) {first second : Nat} (order : first ≤ second) :
    shape.address first ≤ shape.address second := by
  rcases Nat.eq_or_lt_of_le order with rfl | below
  · exact Nat.le_refl _
  · exact Nat.le_trans (Nat.le_add_right _ _) (shape.address_disjoint below)

theorem address_pages (shape : PageShape) (pages : Nat) : shape.address (pages * shape.perPage) =
    pages * shape.pageSize := by
  have shifted := shape.address_add pages 0
  have zero : shape.address 0 = 0 := by simp [address]
  rwa [Nat.add_zero, zero, Nat.add_zero] at shifted

theorem read_copyPages {first count index : Nat} (inside : index < count * shape.perPage) :
    readAt (shape.copyPages target source first count)
        (shape.address (first * shape.perPage + index)) shape.width =
      readAt source (shape.address index) shape.width := by
  rw [address_add]
  apply readAt_copied
  exact Nat.le_trans (shape.address_disjoint inside) (shape.address_pages count).le

theorem read_copyPages_outside {first count index : Nat}
    (outside : index < first * shape.perPage ∨ (first + count) * shape.perPage ≤ index) :
    readAt (shape.copyPages target source first count) (shape.address index) shape.width =
      readAt target (shape.address index) shape.width := by
  apply readAt_congr
  intro cell low high
  apply copyPages_outside
  rcases outside with before | after
  · have gap := shape.address_disjoint before
    rw [address_pages] at gap
    omega
  · have gap := shape.address_mono after
    rw [address_pages] at gap
    omega

theorem sealed_copyPages (target : Nat → Cell) {source : Nat → Cell} (inside : page < count)
    (fits : records ≤ shape.perPage) (closed : shape.Sealed check source page records) :
    shape.Sealed check (shape.copyPages target source first count) (first + page) records := by
  have room := Nat.mul_le_mul_right shape.width fits
  have same : ∀ offset, offset ≤ records * shape.width →
      shape.copyPages target source first count ((first + page) * shape.pageSize + offset) =
        source (page * shape.pageSize + offset) := by
    intro offset within
    rw [Nat.add_mul, Nat.add_assoc]
    exact copyPages_cell target source (shape.page_inside inside (by omega))
  have content : readAt (shape.copyPages target source first count) ((first + page) * shape.pageSize)
      (records * shape.width) = readAt source (page * shape.pageSize) (records * shape.width) := by
    apply List.map_congr_left
    intro offset member
    exact same offset (List.mem_range.mp member).le
  rw [Sealed, content, same _ (Nat.le_refl _)]
  exact closed

theorem sealed_copyPages_outside {target : Nat → Cell} (source : Nat → Cell)
    (outside : page < first ∨ first + count ≤ page) (fits : records ≤ shape.perPage)
    (closed : shape.Sealed check target page records) :
    shape.Sealed check (shape.copyPages target source first count) page records := by
  refine closed.of_same fun cell low high => copyPages_outside target source ?_
  have room := Nat.mul_le_mul_right shape.width fits
  rcases outside with before | after
  · exact Or.inl (shape.page_inside before (by omega))
  · exact Or.inr (Nat.le_trans (Nat.mul_le_mul_right _ after) low)

end PageShape

end OpenGauss.Lib
