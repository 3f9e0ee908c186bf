import OpenGauss.Lib.Bytes

/-! Byte positions in a space of pages that each start with a header. The usable bytes are numbered
without the headers. -/

namespace OpenGauss.Lib

variable {page header : Nat}

/-- The number of usable bytes before an offset that is not inside a header. -/
def usableByteNo (page header offset : Nat) : Nat :=
  (offset % page - header) + offset / page * (page - header)

def offsetOfUsable (page header byteNo : Nat) : Nat :=
  byteNo / (page - header) * page + header + byteNo % (page - header)

/-- The offset `count` usable bytes further on. -/
def plusUsable (page header offset count : Nat) : Nat :=
  offsetOfUsable page header (usableByteNo page header offset + count)

section

variable (fits : header < page)

include fits
variable (byteNo : Nat)

theorem offsetOfUsable_eq :
    offsetOfUsable page header byteNo = byteNo + header * (byteNo / (page - header) + 1) := by
  obtain ⟨usable, rfl⟩ := Nat.exists_eq_add_of_lt fits
  have parts := Nat.div_add_mod byteNo (header + usable + 1 - header)
  simp only [offsetOfUsable, show header + usable + 1 - header = usable + 1 by omega] at parts ⊢
  nlinarith [parts]

theorem offsetOfUsable_strictMono : StrictMono (offsetOfUsable page header) := by
  intro first second before
  rw [offsetOfUsable_eq fits, offsetOfUsable_eq fits]
  have pages : first / (page - header) ≤ second / (page - header) :=
    Nat.div_le_div_right before.le
  have := Nat.mul_le_mul_left header (Nat.add_le_add_right pages 1)
  omega

theorem offsetOfUsable_mod :
    offsetOfUsable page header byteNo % page = header + byteNo % (page - header) := by
  have inside := Nat.mod_lt byteNo (show 0 < page - header by omega)
  rw [offsetOfUsable, Nat.add_assoc, Nat.mul_add_mod_self_right, Nat.mod_eq_of_lt (by omega)]

theorem offsetOfUsable_div :
    offsetOfUsable page header byteNo / page = byteNo / (page - header) := by
  have inside := Nat.mod_lt byteNo (show 0 < page - header by omega)
  rw [offsetOfUsable, Nat.add_assoc, Nat.add_comm, Nat.add_mul_div_right _ _ (by omega),
    Nat.div_eq_of_lt (by omega), Nat.zero_add]

theorem usableByteNo_offsetOfUsable :
    usableByteNo page header (offsetOfUsable page header byteNo) = byteNo := by
  rw [usableByteNo, offsetOfUsable_mod fits, offsetOfUsable_div fits, Nat.add_sub_cancel_left,
    Nat.mul_comm, Nat.mod_add_div]

theorem offsetOfUsable_usableByteNo {offset : Nat} (usable : header ≤ offset % page) :
    offsetOfUsable page header (usableByteNo page header offset) = offset := by
  have inside : offset % page - header < page - header := by
    have := Nat.mod_lt offset (show 0 < page by omega)
    omega
  have pages := Nat.div_add_mod' offset page
  rw [offsetOfUsable, usableByteNo, Nat.add_mul_div_right _ _ (by omega),
    Nat.add_mul_mod_self_right, Nat.div_eq_of_lt inside, Nat.mod_eq_of_lt inside, Nat.zero_add]
  omega

theorem plusUsable_plusUsable (offset first second : Nat) :
    plusUsable page header (plusUsable page header offset first) second =
      plusUsable page header offset (first + second) := by
  simp only [plusUsable, usableByteNo_offsetOfUsable fits, Nat.add_assoc]

/-- Stepping never stops inside a page header. -/
theorem header_le_plusUsable_mod (offset count : Nat) :
    header ≤ plusUsable page header offset count % page := by
  rw [plusUsable, offsetOfUsable_mod fits]
  exact Nat.le_add_right _ _

theorem lt_plusUsable {offset count : Nat} (usable : header ≤ offset % page) (positive : 0 < count) :
    offset < plusUsable page header offset count := by
  calc offset = offsetOfUsable page header (usableByteNo page header offset) :=
        (offsetOfUsable_usableByteNo fits usable).symm
    _ < plusUsable page header offset count :=
        offsetOfUsable_strictMono fits (Nat.lt_add_of_pos_right positive)

theorem plusUsable_mono (offset : Nat) : Monotone (plusUsable page header offset) := by
  intro first second before
  exact (offsetOfUsable_strictMono fits).monotone (Nat.add_le_add_left before _)

end

universe u

variable {Cell : Type u} {page header : Nat} {storage later : Nat → Cell}

/-- The usable positions from `start` on hold these cells. -/
def Holds (page header : Nat) (storage : Nat → Cell) (start : Nat) (cells : List Cell) : Prop :=
  ∀ index cell, cells[index]? = some cell → storage (plusUsable page header start index) = cell

/-- The usable positions below `limit` did not change. -/
def SameBelow (page header : Nat) (storage later : Nat → Cell) (limit : Nat) : Prop :=
  ∀ address < limit, header ≤ address % page → later address = storage address

/-- As many of these cells as there is room for lie from `start` on. -/
def Visible (storage : Nat → Cell) (start room : Nat) (cells : List Cell) : Prop :=
  ∀ index cell, index < room → cells[index]? = some cell → storage (start + index) = cell

theorem Visible.readAt {start room count : Nat} {cells : List Cell}
    (visible : Visible storage start room cells) (within : count ≤ room) (short : count ≤ cells.length) :
    readAt storage start count = cells.take count := by
  apply List.ext_getElem
  · rw [length_readAt, List.length_take, Nat.min_eq_left short]
  · intro index low high
    rw [length_readAt] at low
    rw [List.getElem_take]
    simp only [Lib.readAt, List.getElem_map, List.getElem_range]
    exact visible index _ (by omega) (List.getElem?_eq_getElem (by omega))

theorem Visible.left {start room : Nat} {front back : List Cell}
    (visible : Visible storage start room (front ++ back)) : Visible storage start room front := by
  intro index cell within found
  apply visible index cell within
  rw [List.getElem?_append_left (List.getElem?_eq_some_iff.mp found).1, found]

theorem Visible.right {start room : Nat} {front back : List Cell}
    (visible : Visible storage start room (front ++ back)) :
    Visible storage (start + front.length) (room - front.length) back := by
  intro index cell within found
  rw [Nat.add_assoc]
  apply visible (front.length + index) cell (by omega)
  rw [List.getElem?_append_right (Nat.le_add_right _ _), Nat.add_sub_cancel_left, found]

theorem SameBelow.refl (storage : Nat → Cell) (limit : Nat) :
    SameBelow page header storage storage limit := fun _ _ _ => rfl

theorem SameBelow.trans {last : Nat → Cell} {limit further : Nat}
    (first : SameBelow page header storage later limit)
    (second : SameBelow page header later last further) (order : limit ≤ further) :
    SameBelow page header storage last limit := by
  intro address below usable
  exact (second address (below.trans_le order) usable).trans (first address below usable)

section

variable (fits : header < page)

include fits
variable {start : Nat} {cells : List Cell}

theorem holds_append {front back : List Cell} :
    Holds page header storage start (front ++ back) ↔ Holds page header storage start front ∧
        Holds page header storage (plusUsable page header start front.length) back := by
  constructor
  · intro whole
    refine ⟨?_, ?_⟩
    · intro index cell found
      apply whole index cell
      rw [List.getElem?_append_left (List.getElem?_eq_some_iff.mp found).1, found]
    · intro index cell found
      rw [plusUsable_plusUsable fits]
      apply whole (front.length + index) cell
      rw [List.getElem?_append_right (Nat.le_add_right _ _), Nat.add_sub_cancel_left, found]
  · rintro ⟨first, second⟩ index cell found
    rcases Nat.lt_or_ge index front.length with inside | outside
    · apply first index cell
      rwa [List.getElem?_append_left inside] at found
    · rw [List.getElem?_append_right outside] at found
      have := second (index - front.length) cell found
      rwa [plusUsable_plusUsable fits, Nat.add_sub_cancel' outside] at this

/-- What ends before the limit is still there. -/
theorem Holds.kept {start limit : Nat} (holds : Holds page header storage start cells)
    (same : SameBelow page header storage later limit)
    (inside : plusUsable page header start cells.length ≤ limit) :
    Holds page header later start cells := by
  intro index cell found
  have before := (List.getElem?_eq_some_iff.mp found).1
  rw [← holds index cell found]
  apply same _ _ (header_le_plusUsable_mod fits start index)
  exact lt_of_lt_of_le (offsetOfUsable_strictMono fits (Nat.add_lt_add_left before _)) inside

theorem plusUsable_inside {offset count : Nat}
    (usable : header ≤ offset % page) (inside : offset % page + count < page) :
    plusUsable page header offset count = offset + count := by
  have parts := Nat.div_add_mod' offset page
  have short : offset % page - header + count < page - header := by omega
  rw [plusUsable, usableByteNo, Nat.add_right_comm, offsetOfUsable,
    Nat.add_mul_div_right _ _ (by omega), Nat.add_mul_mod_self_right, Nat.div_eq_of_lt short,
    Nat.mod_eq_of_lt short, Nat.zero_add]
  omega

/-- Stepping over all that is left of a page leads behind the next header. -/
theorem plusUsable_nextPage {offset : Nat} (usable : header ≤ offset % page) :
    plusUsable page header offset (page - offset % page) = (offset / page + 1) * page + header := by
  have below := Nat.mod_lt offset (show 0 < page by omega)
  have full : offset % page - header + (page - offset % page) = page - header := by omega
  rw [plusUsable, usableByteNo, Nat.add_right_comm, full, offsetOfUsable,
    Nat.add_mul_div_right _ _ (by omega), Nat.add_mul_mod_self_right, Nat.div_self (by omega),
    Nat.mod_self, Nat.add_zero, Nat.add_comm 1]

/-- What a page shows of the cells that start in it. -/
theorem Holds.visible (holds : Holds page header storage start cells) (usable : header ≤ start % page) :
    Visible storage start (page - start % page) cells := by
  intro index cell within found
  rw [← plusUsable_inside fits usable (by omega)]
  exact holds index cell found

/-- A write that stays inside the page. -/
theorem holds_writeAt (usable : header ≤ start % page) (inside : start % page + cells.length ≤ page) :
    Holds page header (writeAt storage start cells) start cells := by
  intro index cell found
  obtain ⟨before, same⟩ := List.getElem?_eq_some_iff.mp found
  rw [plusUsable_inside fits usable (by omega), writeAt_inside storage before, same]

end

theorem writeAt_header {start address : Nat} {cells : List Cell} (usable : header ≤ start % page)
    (inside : start % page + cells.length ≤ page) (inHeader : address % page < header) :
    writeAt storage start cells address = storage address := by
  apply writeAt_outside
  by_contra within
  rw [not_or, not_lt, not_le] at within
  obtain ⟨index, rfl⟩ := Nat.exists_eq_add_of_le within.1
  have offset : (start + index) % page = start % page + index := by
    rw [Nat.add_mod, Nat.mod_eq_of_lt (show index < page by omega), Nat.mod_eq_of_lt (by omega)]
  omega

theorem sameBelow_writeAt (storage : Nat → Cell) (start : Nat) (cells : List Cell) :
    SameBelow page header storage (writeAt storage start cells) start := by
  intro address below _
  exact writeAt_outside storage (Or.inl below)

end OpenGauss.Lib
