import Mathlib.Tactic
import Mathlib.Data.List.ReduceOption

/-! Items that carry their own size, stored one after the other. -/

namespace OpenGauss.Lib

/-- Bytes whose size is read from their beginning, whatever follows them. -/
structure SelfSized (size : List UInt8 → Nat) where
  bytes : List UInt8
  positive : 0 < bytes.length
  sized : ∀ rest, size (bytes ++ rest) = bytes.length

namespace SelfSized

variable {size : List UInt8 → Nat}

variable (items : List (SelfSized size))

def joined : List UInt8 := items.flatMap bytes

/-- Where the item at a position starts. -/
def start (position : Nat) : Nat :=
  (joined (items.take position)).length

@[simp] theorem joined_nil : joined ([] : List (SelfSized size)) = [] := rfl

@[simp] theorem joined_cons (item : SelfSized size) (items : List (SelfSized size)) :
    joined (item :: items) = item.bytes ++ joined items := rfl

@[simp] theorem joined_append (front back : List (SelfSized size)) :
    joined (front ++ back) = joined front ++ joined back :=
  List.flatMap_append

@[simp] theorem start_zero : start items 0 = 0 := by
  simp [start]

theorem start_length : start items items.length = (joined items).length := by
  rw [start, List.take_length]

theorem start_le (position : Nat) :
    start items position ≤ (joined items).length := by
  have whole := congrArg (fun items => (joined items).length) (List.take_append_drop position items)
  simp only [joined_append, List.length_append] at whole
  rw [start]
  omega

theorem start_append {items more : List (SelfSized size)} {position : Nat}
    (inside : position ≤ items.length) : start (items ++ more) position = start items position := by
  rw [start, start, List.take_append_of_le_length inside]

section

variable {items : List (SelfSized size)} {position : Nat} {item : SelfSized size}
  (found : items[position]? = some item)

include found

theorem start_succ : start items (position + 1) = start items position + item.bytes.length := by
  rw [start, List.take_add_one, found, Option.toList_some, joined_append, List.length_append]
  simp [start]

/-- What stands at the start of an item is the item and the ones after it. -/
theorem drop_start :
    (joined items).drop (start items position) = item.bytes ++ joined (items.drop (position + 1)) := by
  obtain ⟨inside, same⟩ := List.getElem?_eq_some_iff.mp found
  have split : joined items = joined (items.take position) ++ joined (items.drop position) := by
    rw [← joined_append, List.take_append_drop]
  rw [split, start, List.drop_left, List.drop_eq_getElem_cons inside, same, joined_cons]

end

/-- Every item takes at least one byte. -/
theorem length_le_joined : items.length ≤ (joined items).length := by
  induction items with
  | nil => exact le_rfl
  | cons item items ih =>
    have positive := item.positive
    rw [joined_cons, List.length_append, List.length_cons]
    omega

/-- Where the item of a row starts, the rows without one taking no bytes. -/
def rowStart (rows : List (Option (SelfSized size))) (row : Nat) : Nat :=
  (joined (rows.take row).reduceOption).length

section Rows

variable {rows : List (Option (SelfSized size))} {row : Nat}

@[simp] theorem rowStart_zero (rows : List (Option (SelfSized size))) : rowStart rows 0 = 0 := rfl

theorem rowStart_le (rows : List (Option (SelfSized size))) (row : Nat) :
    rowStart rows row ≤ (joined rows.reduceOption).length := by
  have split := congrArg List.reduceOption (List.take_append_drop row rows)
  rw [List.reduceOption_append] at split
  rw [rowStart, ← split, joined_append, List.length_append]
  exact Nat.le_add_right _ _

theorem rowStart_mono (rows : List (Option (SelfSized size))) {row later : Nat}
    (order : row ≤ later) : rowStart rows row ≤ rowStart rows later := by
  have within := rowStart_le (rows.take later) row
  rw [rowStart, List.take_take, Nat.min_eq_left order] at within
  exact within

theorem rowStart_succ_none (gap : rows[row]? = some none) : rowStart rows (row + 1) = rowStart rows row := by
  rw [rowStart, rowStart, List.take_add_one, gap, List.reduceOption_append]
  simp [List.reduceOption]

theorem rowStart_succ_some {item : SelfSized size} (found : rows[row]? = some (some item)) :
    rowStart rows (row + 1) = rowStart rows row + item.bytes.length := by
  rw [rowStart, rowStart, List.take_add_one, found, List.reduceOption_append]
  simp [List.reduceOption]

theorem drop_rowStart {item : SelfSized size} (found : rows[row]? = some (some item)) :
    (joined rows.reduceOption).drop (rowStart rows row) =
      item.bytes ++ joined (rows.drop (row + 1)).reduceOption := by
  obtain ⟨inside, same⟩ := List.getElem?_eq_some_iff.mp found
  have split := congrArg List.reduceOption (List.take_append_drop row rows)
  rw [List.reduceOption_append] at split
  rw [← split, joined_append, rowStart, List.drop_left, List.drop_eq_getElem_cons inside, same,
    List.reduceOption_cons_of_some, joined_cons]

theorem rowStart_of_length {length : Nat} (full : ∀ value ∈ rows, ∃ item, value = some item)
    (sized : ∀ item, some item ∈ rows → item.bytes.length = length) (inside : row ≤ rows.length) :
    rowStart rows row = row * length := by
  induction row with
  | zero => rw [rowStart_zero, Nat.zero_mul]
  | succ row ih =>
    have known : row < rows.length := inside
    obtain ⟨item, same⟩ := full rows[row] (List.getElem_mem known)
    have found : rows[row]? = some (some item) := by rw [List.getElem?_eq_getElem known, same]
    have length := sized item (List.mem_of_getElem? found)
    rw [rowStart_succ_some found, ih known.le, length, Nat.succ_mul]

end Rows

end SelfSized

end OpenGauss.Lib
